import CodeAtlas.Proofs.Links.History
import CodeAtlas.Proofs.Sync.Current

/-!
# The course of a project

A project is analyzed and then synced time and again; some syncs find nothing to do, and some
fail. Each goes by the state that the one before has left, whose anchor is the commit up to which
the published graph is. This file proves that nothing is ever overlooked, unless a sync fails and
the store refuses its rollback: the graph that the last completed run published is up to date with
the files that there were then.
-/

namespace CodeAtlas

open Fallible

/-- An analysis of a repository in a language, whose files at every commit are given: they are
those of the commit that it reports, the units have distinct identifiers, no enricher is asked and
no extraction fails. -/
structure FreshAnalysis.Follows {σ : Type} (c : Collaborators σ) (platform : Platform)
    (lang : Language) (tree : String → FileTree) (state : ProjectState) (given : Option Examiner)
    (tools : Tooling) (w : Workspace σ) (a : FreshAnalysis) : Prop where
  plain : c.Plain
  suits : ∀ x, ((chooseExaminer given (Path.ofText state.repoPath) state tools :
    Run σ Examiner).run w).1 = .ok x → x.Suits platform lang
  distinct : w.files.DistinctUnits platform lang (Path.ofText state.repoPath)
  clean : ∀ commit, a.summary.commit = some commit → w.files = tree commit
  extracted : a.summary.parseFailures = 0

namespace Ledger

/-- The course of a project: the ledgers to which an analysis and the syncs after it lead, with
the state that the last of these runs has left and the files at the last one that was completed.
A sync that is not completed may have gone as it likes, as long as its rollback is not refused.
Meanwhile other projects may run, and the store may refuse any write. -/
inductive Course (p : String) (platform : Platform) (lang : Language) (tree : String → FileTree) :
    Ledger → ProjectState → FileTree → Prop where
  | analyzed {σ : Type} {l : Ledger} {c : Collaborators σ} {state : ProjectState}
      {given : Option Examiner} {tools : Tooling} {w w' : Workspace σ} {a : FreshAnalysis}
      (hl : l.Reachable) (hp : state.id = p) (hw : w.records = l.records)
      (hfollows : FreshAnalysis.Follows c platform lang tree state given tools w a)
      (hrun : (FreshAnalysis.runWith c (Path.ofText state.repoPath) state given tools).run w =
        (.ok a, w')) :
      Course p platform lang tree (l.afterAnalysis p w'.records (.ok a)) a.summary.state w.files
  | completed {σ : Type} {l : Ledger} {state : ProjectState} {files : FileTree}
      {e : SyncEngine σ} {w w' : Workspace σ} {r : SyncResult}
      (hl : Course p platform lang tree l state files) (hw : w.records = l.records)
      (hfollows : e.Follows platform lang tree state w) (hrun : (e.sync state).run w = (.ok r, w'))
      (hcompleted : r.status = .completed) :
      Course p platform lang tree (l.afterSync p w'.records r (w'.registry.get? p)) r.state w.files
  | uncompleted {σ : Type} {l : Ledger} {state : ProjectState} {files : FileTree}
      {e : SyncEngine σ} {w w' : Workspace σ} {r : SyncResult}
      (hl : Course p platform lang tree l state files) (hw : w.records = l.records)
      (hplain : e.collaborators.Plain) (hrun : (e.sync state).run w = (.ok r, w'))
      (hleft : r.status ≠ .completed)
      (hgranted : r.status = .failed → e.RollbackGranted state (SyncEngine.held state w)) :
      Course p platform lang tree (l.afterSync p w'.records r (w'.registry.get? p)) r.state files
  | meanwhile {l l' : Ledger} {state : ProjectState} {files : FileTree} {q : String}
      (hl : Course p platform lang tree l state files) (hq : q ≠ p)
      (hadvances : StoreAccess.Advances q l.records l'.records)
      (hkept : l'.published p = l.published p) : Course p platform lang tree l' state files
  | disturbed {l : Ledger} {state : ProjectState} {files : FileTree} (asked : Dict WriteSort Nat)
      (refusal : StoreWrite → Nat → Option Failure)
      (hl : Course p platform lang tree l state files) :
      Course p platform lang tree { l with records := { l.records with asked, refusal } }
        state files

/-- Where a project stands in its course: its published graph agrees with the store and is up to
date with the files, which are those of the anchor if there is one. -/
structure UpTo (l : Ledger) (p : String) (platform : Platform) (lang : Language)
    (tree : String → FileTree) (state : ProjectState) (files : FileTree) : Prop where
  project : state.id = p
  sound : l.records.Sound
  anchored : ∀ commit, state.anchor = some commit → files = tree commit
  published : ∃ g, l.published p = some g ∧ g.Agrees l.records.store p ∧
    g.Current files platform lang (Path.ofText state.repoPath)

variable {σ : Type} {l l' : Ledger} {p q : String} {platform : Platform} {lang : Language}
  {tree : String → FileTree} {state : ProjectState} {files : FileTree} {w w' : Workspace σ}
  {e : SyncEngine σ}
  {r : SyncResult}

theorem UpTo.of_analysis (hlang : lang = .java ∨ lang = .go) {c : Collaborators σ}
    {given : Option Examiner} {tools : Tooling} {a : FreshAnalysis}
    (hsound : l.records.Sound) (hp : state.id = p) (hw : w.records = l.records)
    (hfollows : FreshAnalysis.Follows c platform lang tree state given tools w a)
    (hrun : (FreshAnalysis.runWith c (Path.ofText state.repoPath) state given tools).run w =
      (.ok a, w')) :
    (l.afterAnalysis p w'.records (.ok a)).UpTo p platform lang tree a.summary.state w.files := by
  subst hp
  have hc := hfollows.plain
  rw [← hw] at hsound
  have hadvances := FreshAnalysis.records_runWith hc.discreet (Path.ofText state.repoPath) state
    given tools hsound
  rw [hrun] at hadvances
  obtain ⟨_, _, _, _, _, -, -, -, hdone⟩ := FreshAnalysis.runWith_eq_ok hc hrun
  have hcurrent := FreshAnalysis.runWith_current hlang hc hfollows.suits hfollows.distinct hrun
    hfollows.extracted
  have hagrees := FreshAnalysis.runWith_agrees hc.discreet hsound (Or.inl hc.unenriched) hrun
  rw [hdone.advanced]
  exact ⟨rfl, hadvances.sound, hfollows.clean, a.graph, if_pos rfl, hagrees, hcurrent⟩

theorem UpTo.of_completed (h : l.UpTo p platform lang tree state files)
    (hlang : lang = .java ∨ lang = .go) (hw : w.records = l.records)
    (hfollows : e.Follows platform lang tree state w) (hrun : (e.sync state).run w = (.ok r, w'))
    (hcompleted : r.status = .completed) :
    (l.afterSync p w'.records r (w'.registry.get? p)).UpTo p platform lang tree
      r.state w.files := by
  obtain ⟨rfl, hsound, hanchored, before, -, hbefore, hcurrent⟩ := h
  have he := hfollows.plain
  rw [← hw] at hsound hbefore
  have hadvances := SyncEngine.records_sync he.discreet state hsound
  rw [hrun] at hadvances
  obtain ⟨head, g, hclean, hg, hstate, hcurrent'⟩ := hfollows.sync_current hlang hsound.consistent
    hbefore hanchored hcurrent hrun hcompleted
  have hagrees : g.Agrees w'.records.store state.id := by
    rcases SyncEngine.sync_agrees he.discreet hsound (Or.inl he.unenriched) hbefore hrun
      (fun hfailed => by rw [hcompleted] at hfailed; cases hfailed) with
      ⟨-, g', hg', hagrees⟩ | ⟨hleft, -⟩
    · obtain rfl : g = g' := Option.some.inj (hg.symm.trans hg')
      exact hagrees
    · exact absurd hcompleted hleft
  unfold afterSync
  rw [if_pos hcompleted, hstate, hg]
  refine ⟨rfl, hadvances.sound, fun commit hcommit => ?_, g, if_pos rfl, hagrees, hcurrent'⟩
  obtain rfl : head = commit := Option.some.inj hcommit
  exact hclean

theorem UpTo.of_uncompleted (h : l.UpTo p platform lang tree state files)
    (hw : w.records = l.records)
    (hplain : e.collaborators.Plain) (hrun : (e.sync state).run w = (.ok r, w'))
    (hleft : r.status ≠ .completed)
    (hgranted : r.status = .failed → e.RollbackGranted state (SyncEngine.held state w)) :
    (l.afterSync p w'.records r (w'.registry.get? p)).UpTo p platform lang tree r.state files := by
  obtain ⟨rfl, hsound, hanchored, g, hg, hagrees, hcurrent⟩ := h
  rw [← hw] at hsound hagrees
  have hadvances := SyncEngine.records_sync hplain.discreet state hsound
  rw [hrun] at hadvances
  have hagrees' : g.Agrees w'.records.store state.id := by
    rcases SyncEngine.sync_agrees hplain.discreet hsound (Or.inl hplain.unenriched) hagrees hrun
      hgranted with ⟨hcompleted, -⟩ | ⟨-, hsame⟩
    · exact absurd hcompleted hleft
    · exact hagrees.of_sameAnswers hsame
  unfold afterSync
  rw [if_neg hleft]
  rcases SyncEngine.state_of_uncompleted hrun hleft with hstate | ⟨text, hstate⟩
  · rw [hstate]
    exact ⟨rfl, hadvances.sound, hanchored, g, hg, hagrees', hcurrent⟩
  · rw [hstate]
    exact ⟨rfl, hadvances.sound, hanchored, g, hg, hagrees', hcurrent⟩

/-- A project that takes its course never falls behind. -/
theorem Course.upTo (h : Course p platform lang tree l state files)
    (hlang : lang = .java ∨ lang = .go) :
    l.UpTo p platform lang tree state files := by
  induction h with
  | analyzed hl hp hw hfollows hrun => exact .of_analysis hlang hl.sound hp hw hfollows hrun
  | completed _ hw hfollows hrun hcompleted ih =>
    exact ih.of_completed hlang hw hfollows hrun hcompleted
  | uncompleted _ hw hplain hrun hleft hgranted ih =>
    exact ih.of_uncompleted hw hplain hrun hleft hgranted
  | meanwhile _ hq hadvances hkept ih =>
    obtain ⟨hproject, -, hanchored, g, hg, hagrees, hcurrent⟩ := ih
    exact ⟨hproject, hadvances.sound, hanchored, g, hkept.trans hg,
      hagrees.of_frame hadvances.frame (Ne.symm hq), hcurrent⟩
  | disturbed asked refusal _ ih =>
    obtain ⟨hproject, hsound, hanchored, hpublished⟩ := ih
    exact ⟨hproject, ⟨hsound.consistent, hsound.inside, hsound.issued⟩, hanchored, hpublished⟩

/-- Incremental kinds and methods are fresh ones. After an analysis and any syncs of a Java or Go
project, of which those that fail are rolled back, every node of the graph that the last completed
run published has the kind and the methods that extraction gives for the node's file, as the files
were at that run; these are the files of the anchor's commit. -/
theorem Course.published_current (hlang : lang = .java ∨ lang = .go)
    (h : Course p platform lang tree l state files) :
    (∀ commit, state.anchor = some commit → files = tree commit) ∧
      ∃ g, l.published p = some g ∧ ∀ id, g.contains id = true →
        ∃ u ∈ files.unitsIn platform lang (Path.ofText state.repoPath), u.identifier = id ∧
          files.ExtractsTo lang u.path (g.kind id) (g.methodsOf id) := by
  obtain ⟨-, -, hanchored, g, hg, -, hcurrent⟩ := h.upTo hlang
  exact ⟨hanchored, g, hg, hcurrent⟩

end Ledger

/-! ## A sync that is tried again -/

namespace Sample

/-- The first class with a method. -/
def grownFile : List String × FileNode :=
  (["A.java"], .file "class A\x7bvoid m(A a)\x7b\x7d\x7d".toUTF8 (some userTree))

/-- The files of the sample project at its two commits. -/
def committed (commit : String) : FileTree :=
  if commit = "c1" then (workspace [targetFile, userFile]).files
  else (workspace [grownFile, userFile]).files

/-- A workspace at the second commit whose store refuses some writes, given by their sorts and
numbers. -/
def moved (refused : List (WriteSort × Nat)) (w : Workspace Unit) : Workspace Unit :=
  { pulled w [grownFile, userFile] with
    records := { w.records with
      asked := .empty
      refusal := fun write n =>
        if (write.sort, n) ∈ refused then some (.interrupted "disk full") else none } }

/-- Syncs that bring a project to the second commit but cannot keep its state. -/
def stalled : SyncEngine Unit := { follower with persist := some diskFull }

/-- What becomes of an analysis and of two syncs after it. -/
structure Retrial where
  parseFailures : Nat
  commit : Option String
  first : SyncStatus
  second : SyncStatus
  /-- Where the project stood between the syncs. -/
  path : String
  language : Option String
  anchor : Option String
  /-- What the second sync found out: failed extractions, the commit and the changes. -/
  inquiry : Option (List String × String × Diff)
  /-- The methods of the two classes, if they are in the graph that is published in the end. -/
  methods : Option ((Bool × List String) × Bool × List String)
  deriving DecidableEq

/-- What a sync at the second commit finds out. -/
def inquired (state : ProjectState) (w : Workspace Unit) : Option (List String × String × Diff) :=
  match ((follower.inquire state).run (SyncEngine.held state w)).1 with
  | .ok q => some (Extraction.failures q.extractions, q.head, q.diff)
  | .error _ => none

/-- The methods of a class, and whether it is there. -/
def methodsIn (g : Graph) (id : String) : Bool × List String :=
  (g.contains id, (g.methodsOf id).map (·.name))

/-- An analysis at the first commit, a sync to the second one during which the store refuses some
writes, and one more during which it refuses none. -/
def retried (e : SyncEngine Unit) (refused : List (WriteSort × Nat)) : Option Retrial :=
  match analyzedAt [targetFile, userFile] with
  | (.ok a, w) =>
    match (e.sync a.summary.state).run (moved refused w) with
    | (.ok r, w₁) =>
      match (follower.sync r.state).run (moved [] w₁) with
      | (.ok r₁, w₂) =>
        some
          { parseFailures := a.summary.parseFailures
            commit := a.summary.commit
            first := r.status
            second := r₁.status
            path := r.state.repoPath
            language := r.state.language
            anchor := r.state.anchor
            inquiry := inquired r.state (moved [] w₁)
            methods := (w₂.registry.get? project.id).map fun g =>
              (methodsIn g "A", methodsIn g "B") }
      | (.error _, _) => none
    | (.error _, _) => none
  | (.error _, _) => none

theorem stalled_plain : stalled.collaborators.Plain where
  discreet :=
    { versionControl := (plain_of_commitAt "c2").discreet.versionControl
      enricher := fun e he => by cases he
      persist := fun save hsave state => by
        cases hsave
        exact diskFull_discreet state }
  still := (plain_of_commitAt "c2").still
  unenriched := rfl

/-- The changes between the two commits are all listed, and the units keep their paths. -/
theorem changes_committed :
    (changesAt "c2").ListsChanges (committed "c1") (committed "c2") .standard .java root ∧
      (changesAt "c2").KeepsPaths (committed "c1") (committed "c2") .standard .java root := by
  constructor
  · intro u hu _ file hold _ hunlisted
    have hcases : ∀ u ∈ (committed "c1").unitsIn .standard .java root,
        u.relativePath (committed "c1") root = .ok "A.java" ∨ u = userUnit := by decide +kernel
    rcases hcases u hu with hchanged | rfl
    · rw [hold] at hchanged
      rw [Except.ok.inj hchanged] at hunlisted
      exact absurd (List.mem_singleton_self _) hunlisted
    · rfl
  · have hkept : ∀ u ∈ (committed "c1").unitsIn .standard .java root,
        ∀ v ∈ (committed "c2").unitsIn .standard .java root, v.identifier = u.identifier →
          v.path = u.path ∧
            v.relativePath (committed "c2") root = u.relativePath (committed "c1") root := by
      decide +kernel
    exact fun u hu v hv heq => Or.inl (hkept u hu v hv heq)

theorem distinct_committed : (committed "c2").DistinctUnits .standard .java root := by
  unfold FileTree.DistinctUnits
  decide +kernel

theorem follows_analysis {a : FreshAnalysis} (hextracted : a.summary.parseFailures = 0)
    (hcommit : a.summary.commit = some "c1") :
    FreshAnalysis.Follows keeper .standard .java committed project none tools
      (workspace [targetFile, userFile])
      a where
  plain := plain_of_commitAt "c1"
  suits := (ofJava_analysis (by decide +kernel)).java
  distinct := by
    unfold FileTree.DistinctUnits
    decide +kernel
  clean commit h := by
    rw [hcommit] at h
    obtain rfl := Option.some.inj h
    rfl
  extracted := hextracted

theorem suits_of_java {t : FileTree} {repository : Path} {x : Examiner}
    (h : FreshAnalysis.examinerFor t repository (some "java") tools = .ok x) :
    x.Suits .standard .java := by
  cases h
  exact ⟨rfl, rfl⟩

theorem follows_sync {state : ProjectState} {w : Workspace Unit} (hpath : state.repoPath = "/")
    (hlanguage : state.language = some "java") (hanchor : state.anchor = some "c1")
    (hfound : inquired state (moved [] w) = some ([], "c2", changesAt "c2")) :
    follower.Follows .standard .java committed state (moved [] w) := by
  have hrepository : Path.ofText state.repoPath = root := congrArg Path.ofText hpath
  have hinquiry : ∀ q w₁, (follower.inquire state).run (SyncEngine.held state (moved [] w)) =
      (.ok q, w₁) →
        Extraction.failures q.extractions = [] ∧ q.head = "c2" ∧ q.diff = changesAt "c2" := by
    intro q w₁ hrun
    unfold inquired at hfound
    rw [hrun] at hfound
    obtain ⟨hextracted, hrest⟩ := Prod.mk.inj (Option.some.inj hfound)
    exact ⟨hextracted, Prod.mk.inj hrest⟩
  refine ⟨plain_of_commitAt "c2", fun x hx => ?_, ?_, fun q w₁ hq => ?_,
    fun q w₁ hq => (hinquiry q w₁ hq).1, fun q w₁ hq => Or.inr ⟨"c1", hanchor, ?_⟩⟩
  · rw [hlanguage] at hx
    exact suits_of_java hx
  · rw [hrepository]
    exact distinct_committed
  · rw [(hinquiry q w₁ hq).2.1]
    rfl
  · obtain ⟨-, hhead, hdiff⟩ := hinquiry q w₁ hq
    rw [hhead, hdiff, hrepository]
    exact changes_committed

/-- The runs behind such an outcome: the project has taken its course up to the first sync, which
fails, and the second one follows the files. -/
theorem exists_retrial {e : SyncEngine Unit} {refused : List (WriteSort × Nat)}
    {methods : (Bool × List String) × Bool × List String}
    (h : retried e refused = some ⟨0, some "c1", .failed, .completed, "/", some "java", some "c1",
      some ([], "c2", changesAt "c2"), some methods⟩) :
    ∃ (l : Ledger) (state : ProjectState) (w : Workspace Unit) (r : SyncResult)
      (w₁ : Workspace Unit) (r₁ : SyncResult) (w₂ : Workspace Unit) (g : Graph),
      l.Course project.id .standard .java committed state (committed "c1") ∧
        (moved refused w).records = l.records ∧
        (e.sync state).run (moved refused w) = (.ok r, w₁) ∧ r.status = .failed ∧
        follower.Follows .standard .java committed r.state (moved [] w₁) ∧
        (follower.sync r.state).run (moved [] w₁) = (.ok r₁, w₂) ∧ r₁.status = .completed ∧
        w₂.registry.get? project.id = some g ∧ methodsIn g "A" = methods.1 ∧
        methodsIn g "B" = methods.2 := by
  unfold retried at h
  split at h
  · next a w ha =>
    split at h
    · next r w₁ hr =>
      split at h
      · next r₁ w₂ hr₁ =>
        obtain ⟨hextracted, hcommit, hfailed, hcompleted, hpath, hlanguage, hanchor, hfound,
          hpublished⟩ := Retrial.mk.inj (Option.some.inj h)
        obtain ⟨g, hg, rfl⟩ := Option.map_eq_some_iff.1 hpublished
        have hfirst := (Ledger.Course.analyzed (p := project.id) .start rfl rfl
          (follows_analysis hextracted hcommit) ha).disturbed .empty
            (moved refused w).records.refusal
        exact ⟨_, _, w, r, w₁, r₁, w₂, g, hfirst, rfl, hr, hfailed,
          follows_sync hpath hlanguage hanchor hfound, hr₁, hcompleted, hg, rfl, rfl⟩
      · cases h
    · cases h
  · cases h

end Sample

namespace Ledger

open Sample

/-- A sync fails because its state cannot be kept. The next one is told the changes since the
analysis again, and the class that has changed gets its new method. -/
theorem Course.published_current_of_sample :
    ∃ l state g, Course project.id .standard .java committed l state (committed "c2") ∧
      l.published project.id = some g ∧ g.contains "A" = true ∧
      (g.methodsOf "A").map (·.name) = ["m"] ∧
      ∃ u ∈ (committed "c2").unitsIn .standard .java (Path.ofText state.repoPath),
        u.identifier = "A" ∧
        (committed "c2").ExtractsTo .java u.path (g.kind "A") (g.methodsOf "A") := by
  have hretried : retried stalled [] = some ⟨0, some "c1", .failed, .completed, "/", some "java",
      some "c1", some ([], "c2", changesAt "c2"), some ((true, ["m"]), true, ["m"])⟩ := by
    decide +kernel
  obtain ⟨l, state, w, r, w₁, r₁, w₂, g, hfirst, hrecords, hr, hfailed, hfollows, hr₁, hcompleted,
    hg, hmethods, -⟩ := exists_retrial hretried
  obtain ⟨hnode, hnames⟩ := Prod.mk.inj hmethods
  have hsound := (hfirst.upTo (Or.inl rfl)).sound
  rw [← hrecords] at hsound
  have hfree : (moved [] w).records.Unrefused := funext₂ fun _ _ => rfl
  have hsecond := hfirst.uncompleted hrecords stalled_plain hr (by rw [hfailed]; decide)
    fun _ => SyncEngine.rollbackGranted_of_unrefused stalled_plain.discreet hsound hfree
  have hrecords₁ := records_afterSync l project.id w₁.records r (w₁.registry.get? project.id)
  have hthird := (hsecond.disturbed .empty (moved [] w₁).records.refusal).completed
    (w := moved [] w₁) (by rw [hrecords₁]; rfl) hfollows hr₁ hcompleted
  obtain ⟨-, g', hg', hcurrent⟩ := Course.published_current (Or.inl rfl) hthird
  have hlast := hg'
  rw [afterSync, if_pos hcompleted, hg, published_publish] at hlast
  obtain rfl : g = g' := Option.some.inj hlast
  exact ⟨_, r₁.state, g, hthird, hg', hnode, hnames, hcurrent "A" hnode⟩

/-- A sync fails when it saves methods, and so does its rollback. The next sync passes over the
class that has not changed, which is published without its method. -/
theorem Course.published_stale_of_refused_rollback :
    ∃ (l : Ledger) (state : ProjectState) (w : Workspace Unit) (r : SyncResult)
      (w₁ : Workspace Unit) (r₁ : SyncResult) (w₂ : Workspace Unit) (g : Graph),
      l.Course project.id .standard .java committed state (committed "c1") ∧
        (moved [(.saveMethods, 1), (.saveMethods, 2)] w).records = l.records ∧
        (follower.sync state).run (moved [(.saveMethods, 1), (.saveMethods, 2)] w) = (.ok r, w₁) ∧
        r.status = .failed ∧ follower.Follows .standard .java committed r.state (moved [] w₁) ∧
        (follower.sync r.state).run (moved [] w₁) = (.ok r₁, w₂) ∧ r₁.status = .completed ∧
        w₂.registry.get? project.id = some g ∧ g.contains "B" = true ∧ g.methodsOf "B" = [] ∧
        ¬∃ u ∈ (committed "c2").unitsIn .standard .java root, u.identifier = "B" ∧
          (committed "c2").ExtractsTo .java u.path (g.kind "B") (g.methodsOf "B") := by
  have hretried : retried follower [(.saveMethods, 1), (.saveMethods, 2)] = some ⟨0, some "c1",
      .failed, .completed, "/", some "java", some "c1", some ([], "c2", changesAt "c2"),
      some ((true, ["m"]), true, [])⟩ := by
    decide +kernel
  obtain ⟨l, state, w, r, w₁, r₁, w₂, g, hfirst, hrecords, hr, hfailed, hfollows, hr₁, hcompleted,
    hg, -, hmethods⟩ := exists_retrial hretried
  obtain ⟨hnode, hnames⟩ := Prod.mk.inj hmethods
  have hnone : g.methodsOf "B" = [] := List.map_eq_nil_iff.1 hnames
  refine ⟨l, state, w, r, w₁, r₁, w₂, g, hfirst, hrecords, hr, hfailed, hfollows, hr₁, hcompleted,
    hg, hnode, hnone, ?_⟩
  rintro ⟨u, hu, hid, hextracts⟩
  have hmethod : ∀ u ∈ (committed "c2").unitsIn .standard .java root, u.identifier = "B" →
      (((⟨.java, tools⟩ : Examiner).methods (.ofFiles (committed "c2")) u.path).run
        ⟨.empty, none⟩).1.toOption.map (·.map (·.name)) = some ["m"] := by
    decide +kernel
  have hempty := hextracts.methods ⟨.java, tools⟩ rfl ⟨.empty, none⟩
  have hnames' := hmethod u hu hid
  rw [hempty, hnone] at hnames'
  cases hnames'

end Ledger

end CodeAtlas
