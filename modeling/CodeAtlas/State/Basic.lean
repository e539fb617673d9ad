/-!
# Project states

What is kept of a project between runs: who it is, the commit up to which it was examined,
its graph as text, and how the last run ended. A successful run advances the state; a failed
one keeps the anchor and the graph and notes the error.
-/

namespace CodeAtlas

/-- How the last run of a project ended. -/
inductive ProjectStatus where
  | new
  | ready
  | error
  deriving Repr, DecidableEq, Inhabited

namespace ProjectStatus

/-- The written status. -/
def name : ProjectStatus → String
  | .new => "new"
  | .ready => "ready"
  | .error => "error"

/-- The status with exactly this name. -/
def ofName? (s : String) : Option ProjectStatus :=
  [ProjectStatus.new, .ready, .error].find? (·.name == s)

/-- Reading a written status gives the status back. -/
theorem ofName?_name (s : ProjectStatus) : ofName? s.name = some s := by
  cases s <;> decide

end ProjectStatus

/-- What is kept of a project between runs. -/
structure ProjectState where
  id : String
  name : String
  repoPath : String
  language : Option String
  /-- The commit up to which the project was examined. -/
  anchor : Option String
  status : ProjectStatus
  graphText : Option String
  lastSyncedAt : Option String
  error : Option String
  deriving Repr, DecidableEq, Inhabited

namespace ProjectState

/-- A project that was never examined. -/
def fresh (id name repoPath : String) (language : Option String) : ProjectState :=
  ⟨id, name, repoPath, language, none, .new, none, none, none⟩

/-- The state after a successful run at a commit, finished at a time. -/
def advance (s : ProjectState) (now : String) (anchor : Option String) (graphText : String) :
    ProjectState :=
  { s with
    anchor := anchor
    graphText := some graphText
    status := .ready
    lastSyncedAt := some now
    error := none }

/-- The state after a failed run. -/
def failed (s : ProjectState) (error : String) : ProjectState :=
  { s with status := .error, error := some error }

end ProjectState

end CodeAtlas
