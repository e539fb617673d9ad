import CodeAtlas.FileTree
import CodeAtlas.Json.Printer
import CodeAtlas.Json.Reader
import CodeAtlas.State.Basic

/-!
# Saved project states

A project's state lives in a directory: one file for its plain fields and one for its graph.
Each is written under another name first and then moved into place, the graph before the
fields. A state is there as soon as the file of its fields is.
-/

namespace CodeAtlas

/-- The directory that holds a project's saved state. -/
structure StateDirectory where
  path : Path
  deriving Repr, DecidableEq, Inhabited

/-- One step of saving. -/
inductive SaveStep where
  /-- Writes a text to a file. -/
  | write (path : Path) (text : String)
  /-- Moves a file over another one. -/
  | move (source target : Path)
  deriving Repr, DecidableEq, Inhabited

/-- The files after one step. -/
def SaveStep.apply (t : FileTree) : SaveStep → Except FileError FileTree
  | .write path text => t.writeText path text
  | .move source target => t.rename source target

namespace StateDirectory

/-- The version that saved states name. -/
def version : String := "0.1.0"

/-- The file of the plain fields. -/
def metaPath (d : StateDirectory) : Path := d.path.child "meta.json"

/-- The file of the graph. -/
def graphPath (d : StateDirectory) : Path := d.path.child "graph.json"

/-- The file of the project's records. -/
def recordsPath (d : StateDirectory) : Path := d.path.child "records.json"

/-- The name under which a file is written before it is moved into place. -/
def draftOf (p : Path) : Path := p.parent.child (p.name ++ ".tmp")

/-- The written fields of a state, without its graph. -/
def metaJson (s : ProjectState) (stats : Option Json) : Json :=
  .object ([("id", .string s.id), ("name", .string s.name), ("repo_path", .string s.repoPath),
    ("language", Json.ofOption .string s.language), ("anchor", Json.ofOption .string s.anchor),
    ("status", .string s.status.name), ("last_synced_at", Json.ofOption .string s.lastSyncedAt),
    ("error", Json.ofOption .string s.error), ("version", .string version)] ++
    match stats with
    | some v => [("stats", v)]
    | none => [])

/-- The steps that put a text into a file. -/
def replaceFile (p : Path) (text : String) : List SaveStep :=
  [.write (draftOf p) text, .move (draftOf p) p]

/-- The steps that save a state once its directory is there. -/
def saveSteps (d : StateDirectory) (s : ProjectState) (stats : Option Json) : List SaveStep :=
  (match s.graphText with
    | some g => replaceFile d.graphPath g
    | none => []) ++
  replaceFile d.metaPath ((metaJson s stats).pretty ++ "\n")

/-- Saves a state. What was written before a refused step stays written. -/
def save (d : StateDirectory) (t : FileTree) (s : ProjectState) (stats : Option Json) :
    Outcome Unit × FileTree :=
  match t.makeDirectories d.path with
  | .error e => (.error (.fileRefused e), t)
  | .ok t =>
    (d.saveSteps s stats).foldl (fun r step =>
      match r.1 with
      | .error _ => r
      | .ok _ =>
        match step.apply r.2 with
        | .ok t => (.ok (), t)
        | .error e => (.error (.fileRefused e), r.2)) (.ok (), t)

/-- Whether a state has been saved. -/
def isSaved (d : StateDirectory) (t : FileTree) : Bool := t.isFile d.metaPath

/-- The text of a file. -/
def readText (t : FileTree) (p : Path) : Outcome String :=
  match t.readBytes p with
  | .error e => .error (.fileRefused e)
  | .ok content => FileTree.decode content

/-- The fields as they are written; without a saved state there are none. -/
def readMeta (d : StateDirectory) (t : FileTree) : Outcome Json :=
  if d.isSaved t then do Json.read (← readText t d.metaPath) else .ok (.object [])

/-- The status that a field names; a missing field names a new project. -/
def statusOf (v : Option Json) : Outcome ProjectStatus :=
  match v with
  | none => .ok .new
  | some (.string s) =>
    match ProjectStatus.ofName? s with
    | some status => .ok status
    | none => .error (.invalidValue none)
  | some _ => .error (.invalidValue none)

/-- The state that written fields and a graph make. -/
def stateOf (v : Json) (graphText : Option String) : Outcome ProjectState := do
  let id ← v.required "id"
  let name ← v.required "name"
  let repoPath ← v.required "repo_path"
  let language ← v.optional "language"
  let anchor ← v.optional "anchor"
  let status ← statusOf (← v.optional "status")
  return ⟨← id.asString, ← name.asString, ← repoPath.asString, ← Json.asString? language,
    ← Json.asString? anchor, status, graphText, ← Json.asString? (← v.optional "last_synced_at"),
    ← Json.asString? (← v.optional "error")⟩

/-- The saved state, if there is one. -/
def load (d : StateDirectory) (t : FileTree) : Outcome (Option ProjectState) :=
  if d.isSaved t then do
    let fields ← d.readMeta t
    let graphText ←
      if t.isFile d.graphPath then (readText t d.graphPath).map some else .ok none
    return some (← stateOf fields graphText)
  else .ok none

/-- The files without the directory. What stands in its place but is no directory is not
removed. -/
def clear (d : StateDirectory) (t : FileTree) : Outcome FileTree :=
  match t.locate d.path with
  | .ok parts =>
    if t.isDirectory d.path then .ok (t.removeTree parts)
    else if t.pathExists d.path then .error (.fileRefused ⟨.notADirectory, d.path.text, none⟩)
    else .ok t
  | .error _ => .ok t

end StateDirectory

end CodeAtlas
