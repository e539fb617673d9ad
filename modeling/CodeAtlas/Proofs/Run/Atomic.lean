import CodeAtlas.Ignore.Patterns
import CodeAtlas.Proofs.Run.History

/-!
# Failed runs

A run can fail between any two of its writes, while answers are written back, or when its state
is to be kept at the very end. This file proves that it leaves no trace then: the store answers
everything as before and the published graphs are the same, provided that the rollback itself
is not refused.
-/

namespace CodeAtlas

open RecordStore

/-- A failed run leaves no trace. Whatever runs of whatever projects have been there before, and
wherever collaborators fail, an analysis that fails has changed no answer of the store and no
published graph if its rollback is not refused. A sync always has a result; if that says that
the sync failed, the same is true of it, and at most the status and the error text of the
project's state have changed. -/
theorem Ledger.Reachable.failed_runs_atomic {l : Ledger} (hl : l.Reachable) :
    (∀ {σ : Type} {c : Collaborators σ}, c.Discreet →
      ∀ (repository : Path) (state : ProjectState) (given : Option Examiner)
        (tools : Tooling) (w w' : Workspace σ) (f : Failure), w.records = l.records →
        FreshAnalysis.RollbackGranted c repository state given tools w →
        (FreshAnalysis.runWith c repository state given tools).run w = (.error f, w') →
        SameAnswers w.records.store w'.records.store ∧ w'.registry = w.registry) ∧
    ∀ {σ : Type} {e : SyncEngine σ}, e.collaborators.Discreet →
      ∀ (state : ProjectState) (w : Workspace σ), w.records = l.records →
        ∃ r w', (e.sync state).run w = (.ok r, w') ∧
          (r.status = .failed →
            (e.RollbackGranted state (SyncEngine.held state w) →
              SameAnswers w.records.store w'.records.store ∧ w'.registry = w.registry) ∧
            (r.state = state ∨
              ∃ text, r.state = { state with status := .error, error := some text })) := by
  have hsound := hl.sound
  constructor
  · intro σ c hc repository state given tools w w' f hw hgranted hrun
    exact FreshAnalysis.runWith_failed hc (hw ▸ hsound) hgranted hrun
  · intro σ e he state w hw
    exact SyncEngine.sync_failed he (hw ▸ hsound)

/-! ## A disk that is full -/

namespace Sample

/-- A named syntax node of a sample file. -/
def node (type field : String) (start stop : Nat) (children : List SyntaxTree) : SyntaxTree :=
  .node type true field start stop children

/-- The syntax tree of a class without members. -/
def targetTree : SyntaxTree :=
  node "program" "" 0 9 [node "class_declaration" "" 0 9
    [node "identifier" "name" 6 7 [], node "class_body" "body" 7 9 []]]

/-- The syntax tree of a class with one method of one parameter. -/
def userTree : SyntaxTree :=
  node "program" "" 0 22 [node "class_declaration" "" 0 22
    [node "identifier" "name" 6 7 [], node "class_body" "body" 7 22
      [node "method_declaration" "" 8 21
        [node "void_type" "type" 8 12 [], node "identifier" "name" 13 14 [],
          node "formal_parameters" "parameters" 14 19
            [node "formal_parameter" "" 15 18
              [node "type_identifier" "type" 15 16 [], node "identifier" "name" 17 18 []]]]]]]

/-- The file of a class without members. -/
def targetFile : List String × FileNode :=
  (["A.java"], .file "class A\x7b\x7d".toUTF8 (some targetTree))

/-- The file of a class with a method whose parameter is of the other class. -/
def userFile : List String × FileNode :=
  (["B.java"], .file "class B\x7bvoid m(A a)\x7b\x7d\x7d".toUTF8 (some userTree))

/-- The second file when it has ceased to be a text. -/
def brokenFile : List String × FileNode := (["B.java"], .file ⟨#[255]⟩ none)

/-- A project without a state. -/
def project : ProjectState := .fresh "p" "p" "/" (some "java")

/-- A workspace with files and an empty store. -/
def workspace (files : List (List String × FileNode)) : Workspace Unit :=
  { files := ⟨⟨files⟩, []⟩, vanishing := [], records := .ofStore .empty, registry := .empty,
    examiner := ⟨.empty, none⟩, syncing := [], collaborators := () }

/-- The standard platform, without an analyzer. -/
def tools : Tooling := ⟨.standard, []⟩

/-- Nobody but someone who may keep states. -/
def collaborators (persist : Option (ProjectState → Run Unit Unit)) : Collaborators Unit :=
  ⟨none, none, persist, "now"⟩

/-- No state can be kept. -/
def diskFull (_ : ProjectState) : Run Unit Unit := throw (.interrupted "disk full")

/-- A repository of which every file counts as changed. -/
def resync : VersionControl Unit := ⟨fun _ => pure "c2", fun _ _ new => pure (.fullResync new)⟩

/-- Syncs that keep no state. -/
def engine : SyncEngine Unit := ⟨resync, none, some diskFull, "now", tools⟩

theorem collaborators_discreet {persist : Option (ProjectState → Run Unit Unit)}
    (h : ∀ save, persist = some save → ∀ state, Run.Discreet (save state)) :
    (collaborators persist).Discreet where
  versionControl v hv := by cases hv
  enricher e he := by cases he
  persist := h

theorem diskFull_discreet (state : ProjectState) : Run.Discreet (diskFull state) :=
  Run.discreet_throw _

theorem collaborators_diskFull_discreet : (collaborators (some diskFull)).Discreet :=
  collaborators_discreet fun save h state => by
    cases h
    exact diskFull_discreet state

theorem engine_discreet : engine.collaborators.Discreet where
  versionControl v hv := by
    cases hv
    exact ⟨fun _ => Run.discreet_pure _, fun _ _ _ => Run.discreet_pure _⟩
  enricher _ he := by cases he
  persist save hsave state := by
    cases hsave
    exact diskFull_discreet state

/-- Syncs of everything, with nobody to keep states. -/
def resyncing : SyncEngine Unit := { engine with persist := none }

theorem resyncing_discreet : resyncing.collaborators.Discreet where
  versionControl := engine_discreet.versionControl
  enricher _ he := by cases he
  persist _ hsave := by cases hsave

/-- An analysis of the sample project. -/
def analysis (persist : Option (ProjectState → Run Unit Unit)) : Run Unit FreshAnalysis :=
  FreshAnalysis.runWith (collaborators persist) (Path.ofText "/") project none tools

/-- What an analysis of the two sample files gives. -/
def outcome : Outcome FreshAnalysis := ((analysis none).run (workspace [targetFile, userFile])).1

/-- The workspace after the two sample files were analyzed. -/
def analyzed : Workspace Unit := ((analysis none).run (workspace [targetFile, userFile])).2

/-- The ledger after the two sample files were analyzed. -/
def ledger : Ledger := Ledger.start.afterAnalysis project.id analyzed.records outcome

theorem records_ledger : analyzed.records = ledger.records :=
  (Ledger.records_afterAnalysis ..).symm

theorem step_ledger : Ledger.Step .start ledger := by
  have hdiscreet : (collaborators none).Discreet := collaborators_discreet fun _ h => by cases h
  have hrun : (analysis none).run (workspace [targetFile, userFile]) = (outcome, analyzed) := rfl
  have hrecords : (workspace [targetFile, userFile]).records = Ledger.start.records := rfl
  exact .analysis hdiscreet _ project none tools hrecords hrun

end Sample

open Sample in
/-- Two classes and the link between them are stored. When the disk is full, a second analysis
deletes and rewrites them before it fails, and so does a sync; both leave them as they were. -/
theorem Ledger.Reachable.failed_runs_atomic_of_full_disk :
    analyzed.records.store.linksFor (StoreAccess.idOfNumber 2) =
        [⟨StoreAccess.idOfNumber 2, "m", 0, StoreAccess.idOfNumber 1⟩] ∧
      (∃ w', (analysis (some diskFull)).run analyzed = (.error (.interrupted "disk full"), w') ∧
        SameAnswers analyzed.records.store w'.records.store ∧
        w'.registry = analyzed.registry) ∧
      ∃ r w', (engine.sync project).run analyzed = (.ok r, w') ∧ r.status = .failed ∧
        SameAnswers analyzed.records.store w'.records.store ∧
        w'.registry = analyzed.registry := by
  have hreach : ledger.Reachable := .step .start step_ledger
  obtain ⟨hsound, hfree⟩ := (Ledger.Undisturbed.step .start step_ledger).sound
  rw [← records_ledger] at hsound hfree
  obtain ⟨hanalyses, hsyncs⟩ := hreach.failed_runs_atomic
  refine ⟨by decide +kernel, ?_, ?_⟩
  · have hfailure : (match ((analysis (some diskFull)).run analyzed).1 with
        | .ok _ => none
        | .error f => some f) = some (.interrupted "disk full") := by
      decide +kernel
    cases hrun : (analysis (some diskFull)).run analyzed with
    | mk o w' =>
      rw [hrun] at hfailure
      cases o with
      | ok a => cases hfailure
      | error f =>
        cases hfailure
        refine ⟨w', rfl,
          hanalyses collaborators_diskFull_discreet _ _ _ _ _ _ _ records_ledger ?_ hrun⟩
        exact FreshAnalysis.rollbackGranted_of_unrefused collaborators_diskFull_discreet hsound
          hfree
  · have hstatus : (match ((engine.sync project).run analyzed).1 with
        | .ok r => some r.status
        | .error _ => none) = some .failed := by
      decide +kernel
    obtain ⟨r, w', hrun, hfailed⟩ := hsyncs engine_discreet project analyzed records_ledger
    rw [hrun] at hstatus
    have hr : r.status = .failed := Option.some.inj hstatus
    exact ⟨r, w', hrun, hr, (hfailed hr).1
      (SyncEngine.rollbackGranted_of_unrefused engine_discreet hsound hfree)⟩

end CodeAtlas
