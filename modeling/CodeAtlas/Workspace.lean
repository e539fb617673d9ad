import CodeAtlas.Record.Staging
import CodeAtlas.Registry
import CodeAtlas.Survey

/-!
# Workspaces

All that runs read and change: the files, the records, the published graphs, the programs of
the host, and which projects are being synced. A run is a computation on a workspace that can
fail; what it changed stays changed when it fails later, unless it is put back.
-/

namespace CodeAtlas

/-- What runs read and change. `σ` is what their collaborators keep for themselves. -/
structure Workspace (σ : Type) where
  files : FileTree
  /-- Paths that others delete whenever the records of a project are read. -/
  vanishing : List Path
  records : StoreAccess
  registry : Registry
  examiner : ExaminerState
  /-- The projects that are being synced. -/
  syncing : List String
  collaborators : σ
  deriving Inhabited

/-- A computation on a workspace. -/
abbrev Run (σ : Type) := ExceptT Failure (StateM (Workspace σ))

namespace Run

variable {σ α : Type}

/-- The run that has a given outcome and changes nothing. -/
def ofOutcome (o : Outcome α) : Run σ α := ExceptT.mk (pure o)

/-- The outcome of a run, a failure being kept as a value. -/
def attempt (x : Run σ α) : Run σ (Outcome α) := ExceptT.mk (x.run >>= fun o => pure (.ok o))

/-- The files as they are now. -/
def files : Run σ FileTree := do return (← get).files

/-- The records as they are now. -/
def store : Run σ RecordStore := do return (← get).records.store

/-- Examines sources. -/
def examine (x : Examining α) : Run σ α :=
  ExceptT.mk fun w =>
    let (o, s) := x.run w.examiner
    (o, { w with examiner := s })

/-- Uses programs of the host. -/
def onHost (x : HostRun α) : Run σ α :=
  ExceptT.mk fun w =>
    let (o, h) := x.run w.examiner.host
    (o, { w with examiner := { w.examiner with host := h } })

/-- Uses the records. -/
def onStore (x : StoreM α) : Run σ α :=
  ExceptT.mk fun w =>
    let (a, r) := x w.records
    (.ok a, { w with records := r })

/-- Asks for a write. -/
def write (w : StoreWrite) : Run σ Unit := do ofOutcome (← onStore (StoreAccess.write w))

/-- Changes the files. -/
def changeFiles (f : FileTree → Except FileError FileTree) : Run σ Unit := do
  let w ← get
  match f w.files with
  | .ok t => set { w with files := t }
  | .error e => throw (.fileRefused e)

/-- The class records of a project. Others may delete files meanwhile. -/
def findByProject (project : String) : Run σ (List ClassRecord) :=
  ExceptT.mk fun w =>
    (.ok (w.records.store.findByProject project),
      { w with files := w.vanishing.foldl (fun t p => t.removeTree p.parts) w.files })

/-- The records of a project, to be put back later. -/
def takeSnapshot (project : String) : Run σ Snapshot := do
  let _ ← findByProject project
  return Snapshot.take (← store) project

/-- Puts the records of a project back. -/
def restoreSnapshot (snap : Snapshot) : Run σ Unit := do
  let _ ← findByProject snap.project
  ofOutcome (← onStore snap.restore)

/-- Runs a computation and, if it fails, puts the records of a project back before the failure
is passed on. Records that cannot be put back are left as they are. -/
def orRestore (snap : Snapshot) (x : Run σ α) : Run σ α := do
  match ← attempt x with
  | .ok a => return a
  | .error f =>
    let _ ← attempt (restoreSnapshot snap)
    throw f

/-- Runs a computation in one session of the examiner. A new session ends with it, whether it
fails or not. -/
def inSession (x : Run σ α) : Run σ α :=
  ExceptT.mk fun w =>
    match w.examiner.session with
    | some _ => x.run w
    | none =>
      let (o, w) := x.run { w with examiner := { w.examiner with session := some .fresh } }
      let s := w.examiner
      (o, { w with
        examiner := ⟨AnalyzerSession.finish (s.session.bind (·.running)) s.host, none⟩ })

/-- Publishes a graph. -/
def publish (id name : String) (g : Graph) : Run σ Unit :=
  modify fun w => { w with registry := w.registry.put id name g }

end Run

end CodeAtlas
