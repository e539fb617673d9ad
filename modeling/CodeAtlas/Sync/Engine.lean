import CodeAtlas.Analysis.Fresh
import CodeAtlas.Graph.Basic

/-!
# Syncs and their partition

Every identifier that was stored or is in the new graph is added, updated, deleted or
unchanged. An update whose extraction fails is demoted to unchanged, and an added unit whose
file has vanished is dropped.
-/

namespace CodeAtlas

/-- The four classes of identifiers. -/
structure SyncPartition where
  added : List String
  updated : List String
  deleted : List String
  unchanged : List String
  deriving Repr, DecidableEq, Inhabited

namespace SyncPartition

/-- The partition without identifiers. -/
def empty : SyncPartition := ⟨[], [], [], []⟩

/-- The number of identifiers. -/
def total (p : SyncPartition) : Nat :=
  p.added.length + p.updated.length + p.deleted.length + p.unchanged.length

/-- Moves an updated identifier to the unchanged ones; `none` if it is not updated. -/
def demote? (p : SyncPartition) (id : String) : Option SyncPartition :=
  if id ∈ p.updated then
    some { p with updated := p.updated.erase id, unchanged := p.unchanged ++ [id] }
  else none

/-- Forgets an added identifier; `none` if it is not added. -/
def drop? (p : SyncPartition) (id : String) : Option SyncPartition :=
  if id ∈ p.added then some { p with added := p.added.erase id } else none

/-- Whether a node of the graph counts as changed. -/
def isChanged (g : Graph) (changedFiles : List String) (full : Bool) (id : String) : Bool :=
  full || match g.sourceFile? id with
    | some file => changedFiles.contains file
    | none => false

/-- Classifies the stored identifiers and the nodes of the new graph. Deleted identifiers keep
their stored order, the others the order of the graph. -/
def ofGraph (stored : List String) (g : Graph) (changedFiles : List String) (full : Bool) :
    SyncPartition :=
  let (known, fresh) := g.identifiers.partition fun id => stored.contains id
  { added := fresh
    updated := known.filter (isChanged g changedFiles full)
    deleted := (firstOccurrences stored).filter fun id => !g.contains id
    unchanged := known.filter fun id => !isChanged g changedFiles full id }

end SyncPartition

/-!
## The course of a sync

A sync brings a project up to the commit that is checked out. Every file is examined again,
but only added and updated units get new records and are enriched; the others get back what is
stored about them. A sync is skipped, completes or fails; one that fails leaves the records,
the published graph and the anchor as they were. At most one sync of a project runs at a time.
-/

/-- How a sync ends. -/
inductive SyncStatus where
  | skipped
  | completed
  | failed
  deriving Repr, DecidableEq, Inhabited

/-- The written status. -/
def SyncStatus.name : SyncStatus → String
  | .skipped => "skipped"
  | .completed => "completed"
  | .failed => "failed"

/-- What a sync did. -/
structure SyncResult where
  status : SyncStatus
  project : String
  commit : Option String
  plan : SyncPartition
  counts : EnrichmentCounts
  /-- Whether every file counted as changed. -/
  full : Bool
  error : Option String
  errorKind : Option ErrorKind
  state : ProjectState
  deriving Repr, DecidableEq, Inhabited

namespace SyncResult

/-- A sync that found nothing to do. -/
def skipped (state : ProjectState) (head : String) : SyncResult :=
  ⟨.skipped, state.name, some head, .empty, ⟨0, 0⟩, false, none, none, state⟩

/-- A sync that failed. -/
def failed (state : ProjectState) (error : String) (kind : ErrorKind) : SyncResult :=
  ⟨.failed, state.name, none, .empty, ⟨0, 0⟩, false, some error, some kind, state⟩

end SyncResult

/-- How many of several syncs ended in a certain way. -/
def SyncResult.count (status : SyncStatus) (results : List SyncResult) : Nat :=
  (results.filter fun r => r.status = status).length

/-- What syncs need besides the workspace. -/
structure SyncEngine (σ : Type) where
  versionControl : VersionControl σ
  enricher : Option (Enricher σ)
  persist : Option (ProjectState → Run σ Unit)
  clock : String
  /-- What sources are examined with. -/
  tools : Tooling

namespace SyncEngine

variable {σ : Type}

/-- Who the engine asks. -/
def collaborators (e : SyncEngine σ) : Collaborators σ :=
  ⟨some e.versionControl, e.enricher, e.persist, e.clock⟩

/-- The new graph while a sync works on it, with its partition. -/
structure Draft where
  graph : Graph
  plan : SyncPartition
  /-- The stored records by identifier. -/
  records : Dict String ClassRecord
  /-- The units whose extraction failed. -/
  failed : List String
  deriving Inhabited

/-- Drops the added units whose files are not there any more. -/
def dropVanished (t : FileTree) (paths : Dict String Path) (g : Graph) (plan : SyncPartition) :
    Graph × SyncPartition :=
  plan.added.foldl (fun (r : Graph × SyncPartition) id =>
    if ((paths.get? id).map t.isFile).getD false then r
    else (r.1.removeNode id, (r.2.drop? id).getD r.2)) (g, plan)

/-- Moves the updated units whose extraction failed to the unchanged ones. -/
def demoteFailed (failed : List String) (plan : SyncPartition) : SyncPartition :=
  plan.updated.foldl (fun p id => if failed.contains id then (p.demote? id).getD p else p) plan

/-- Examines the repository, classifies its units and describes the added and updated ones. -/
def draft (e : Examiner) (repository : Path) (project : String) (diff : Diff) : Run σ Draft :=
  Run.inSession do
    let kept ← Run.files
    let survey ← Run.examine (Survey.take e kept repository)
    let stored ← Run.findByProject project
    let records := Dict.ofList (stored.map fun r => (r.identifier, r))
    let plan := SyncPartition.ofGraph records.keys survey.graph diff.changed diff.full
    let now ← Run.files
    let paths := Dict.ofList (survey.units.map fun u => (u.identifier, u.path))
    let (g, plan) := dropVanished now paths survey.graph plan
    let (g, failed) ← Run.examine
      (g.describe e ⟨kept, now⟩ repository (some survey.units) (some (plan.updated ++ plan.added)))
    return ⟨g, demoteFailed failed plan, records, failed⟩

/-- Gives the unchanged nodes back what is stored about them. -/
def restoreUnchanged (s : RecordStore) (d : Draft) : Graph :=
  let names := Dict.ofList (d.records.values.map fun r => (r.id, r.identifier))
  d.plan.unchanged.foldl (fun g id =>
    match d.records.get? id with
    | some r => g.restoreNode s r names
    | none => g) d.graph

/-- The methods with the texts that are stored for them, where they have none of their own. -/
def carryTexts (rows : List MethodRecord) (methods : List Method) : List Method :=
  let previous := Dict.ofList (rows.map fun r => (r.name, r))
  methods.map fun m =>
    match previous.get? m.name, m.description with
    | some r, none => { m with description := r.description, businessLogic := r.businessLogic }
    | _, _ => m

/-- Ties an updated node to its record and keeps its description and its methods' texts. -/
def stageUpdated (s : RecordStore) (head : String) (g : Graph) (old : ClassRecord) :
    Graph × ClassRecord :=
  let id := old.identifier
  let g := g.bindClassId id old.id
  let g := g.setNodeInfo id ⟨g.kind id, old.description⟩
  let g := match g.methods.get? id with
    | some ms => g.setMethods id (carryTexts (s.methodsFor old.id) ms)
    | none => g
  let file := (g.sourceFile? id).getD old.sourceFile
  (g, { old with
    sourceFile := if file.isEmpty then old.sourceFile else file
    kind := g.kind id
    commit := some head })

/-- The class records of updated nodes, which keep their ids. -/
def stageAllUpdated (s : RecordStore) (head : String) (g : Graph) :
    List ClassRecord → Graph × List ClassRecord
  | [] => (g, [])
  | old :: rest =>
    let (g, record) := stageUpdated s head g old
    let (g, records) := stageAllUpdated s head g rest
    (g, record :: records)

/-- The graph and the class records to be written for a draft: those of updated nodes, then
those of added ones. -/
def stageClasses (project head : String) (d : Draft) :
    StoreM (Graph × List ClassRecord × List ClassRecord) := do
  let s ← StoreAccess.current
  let g := restoreUnchanged s d
  let (g, updated) := stageAllUpdated s head g (d.plan.updated.filterMap d.records.get?)
  let files := d.plan.added.map fun id => (id, (g.sourceFile? id).getD "")
  let (g, added) ← FreshAnalysis.stageClasses project (some head) g files
  return (g, updated, added)

/-- The ids of the records of deleted units. -/
def deletedIds (d : Draft) : List String :=
  (d.plan.deleted.filterMap d.records.get?).map (·.id)

/-- Deletes the methods and links of class records if there are any. -/
def deleteMethodsAndLinks (ids : List String) : Run σ Unit :=
  if ids.isEmpty then return () else Run.write (.deleteMethodsAndLinks ids)

/-- Writes the records of a draft. -/
def writeRecords (d : Draft) (g : Graph) (updated added : List ClassRecord)
    (methods : List MethodRecord) : Run σ Unit := do
  FreshAnalysis.deleteClasses (deletedIds d)
  deleteMethodsAndLinks (updated.map (·.id))
  FreshAnalysis.writeStaged g (updated ++ added) methods

/-- Has the staged nodes enriched if there are any and there is an enricher. -/
def enrichStaged (e : SyncEngine σ) (repository : Path) (x : Examiner)
    (staged : List ClassRecord) (g : Graph) : Run σ (Graph × EnrichmentCounts) :=
  match e.enricher with
  | none => return (g, ⟨0, 0⟩)
  | some enricher =>
    if staged.isEmpty then return (g, ⟨0, 0⟩)
    else g.enrich enricher repository x.language.name (staged.map (·.identifier))

/-- A sync before anything is written. -/
structure Staged where
  examiner : Examiner
  diff : Diff
  draft : Draft
  /-- The graph of the draft, with every node tied to its record. -/
  graph : Graph
  /-- The class records to be written. -/
  updated : List ClassRecord
  added : List ClassRecord
  /-- The method records to be written. -/
  methods : List MethodRecord
  /-- The project's records before the sync. -/
  snapshot : Snapshot
  deriving Inhabited

/-- Finds out what a sync has to write, without writing anything. -/
def stage (e : SyncEngine σ) (state : ProjectState) (head : String) : Run σ Staged := do
  let repository := Path.ofText state.repoPath
  let diff ← e.versionControl.diff repository state.anchor head
  let x ← Run.ofOutcome
    (FreshAnalysis.examinerFor (← Run.files) repository state.language e.tools)
  let d ← draft x repository state.id diff
  let (g, updated, added) ← Run.onStore (stageClasses state.id head d)
  let methods ← Run.onStore (FreshAnalysis.stageAllMethods g (updated ++ added))
  let snapshot ← Run.takeSnapshot state.id
  return ⟨x, diff, d, g, updated, added, methods, snapshot⟩

/-- Writes what was staged, has it enriched and keeps the project's new state. -/
def commit (e : SyncEngine σ) (state : ProjectState) (head : String) (s : Staged) :
    Run σ (Graph × EnrichmentCounts × ProjectState) := do
  writeRecords s.draft s.graph s.updated s.added s.methods
  let (g, counts) ←
    e.enrichStaged (Path.ofText state.repoPath) s.examiner (s.updated ++ s.added) s.graph
  let advanced := state.advance e.clock (some head) g.toText
  FreshAnalysis.persistState e.collaborators advanced
  return (g, counts, advanced)

/-- Brings a project from its anchor to another commit. -/
def advance (e : SyncEngine σ) (state : ProjectState) (head : String) : Run σ SyncResult := do
  let s ← e.stage state head
  let (g, counts, advanced) ← Run.orRestore s.snapshot (e.commit state head s)
  Run.publish state.id state.name g
  return ⟨.completed, state.name, some head, s.draft.plan, counts, s.diff.full, none, none,
    advanced⟩

/-- Publishes the saved graph of a project that has none published. -/
def ensurePublished (state : ProjectState) : Run σ Unit := do
  let w ← get
  if (w.registry.get? state.id).isNone then
    let (r, _) ← Run.ofOutcome (w.registry.reload state)
    set { w with registry := r }

/-- Brings a project up to the commit that is checked out. -/
def attemptSync (e : SyncEngine σ) (state : ProjectState) : Run σ SyncResult := do
  let head ← e.versionControl.head (Path.ofText state.repoPath)
  if state.anchor = some head then
    ensurePublished state
    return .skipped state head
  else e.advance state head

/-- The state of a project whose sync failed, which is kept if that is possible. -/
def recordFailure (e : SyncEngine σ) (state : ProjectState) (error : String) :
    Run σ ProjectState := do
  let failed := state.failed error
  let _ ← Run.attempt (FreshAnalysis.persistState e.collaborators failed)
  return failed

/-- Syncs a project whose failures are part of the result. -/
def syncUnlocked (e : SyncEngine σ) (state : ProjectState) : Run σ SyncResult := do
  match ← Run.attempt (e.attemptSync state) with
  | .ok r => return r
  | .error f => return .failed (← e.recordFailure state f.text) f.text .syncFailed

/-- Syncs a project, unless a sync of it is under way. -/
def sync (e : SyncEngine σ) (state : ProjectState) : Run σ SyncResult := do
  if (← get).syncing.contains state.id then
    return .failed state ("A sync of " ++ state.name ++ " is already in progress") .syncAnomaly
  else
    modify fun w => { w with syncing := w.syncing ++ [state.id] }
    let result ← e.syncUnlocked state
    modify fun w => { w with syncing := w.syncing.erase state.id }
    return result

/-- Syncs projects one after the other. -/
def syncAll (e : SyncEngine σ) (states : List ProjectState) : Run σ (List SyncResult) :=
  states.mapM e.sync

end SyncEngine

end CodeAtlas
