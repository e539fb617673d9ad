import CodeAtlas.Dict
import CodeAtlas.Process.Host
import CodeAtlas.Text.CharSet
import CodeAtlas.Text.Lines
import CodeAtlas.Text.Pieces

/-!
# Version control

Which files changed and which were deleted between two commits. A listing has one entry per
line: a status letter, perhaps with a score, and one or two paths, all between tabs. A renamed
file is deleted under its old path and changed under its new one.
-/

namespace CodeAtlas

/-- The files that differ between two commits. -/
structure Diff where
  newAnchor : String
  changed : List String
  deleted : List String
  /-- Every file counts as changed. -/
  full : Bool
  deriving Repr, DecidableEq, Inhabited

namespace Diff

/-- The difference from an unknown commit. -/
def fullResync (newAnchor : String) : Diff := ⟨newAnchor, [], [], true⟩

/-- The changed and the deleted path of one line's pieces. -/
def entryPaths : List (List Char) → Option (List Char) × Option (List Char)
  | (status :: _) :: path :: rest =>
    if status = 'A' || status = 'M' || status = 'T' then (some path, none)
    else if status = 'C' then (some (rest.getLast?.getD path), none)
    else if status = 'D' then (none, some path)
    else if status = 'R' then
      match rest with
      | newPath :: _ => (some newPath, some path)
      | [] => (none, none)
    else (none, none)
  | _ => (none, none)

/-- The paths that the lines of a listing name as changed and as deleted. -/
def pathsOfLines (lines : List (List Char)) : List String × List String :=
  let entries := lines.map fun line => entryPaths (Text.cutAt '\t' line)
  (firstOccurrences ((entries.filterMap (·.1)).map String.ofList),
    firstOccurrences ((entries.filterMap (·.2)).map String.ofList))

/-- The changed and deleted paths of a listing. -/
def parseListing (text : String) : List String × List String :=
  pathsOfLines (Text.linesOf text.toList)

end Diff

/-!
## Git

The commit that is checked out and the differences between two commits, asked of the host's
version control. A commit that it does not know makes every file count as changed.
-/

namespace Git

/-- Runs a command and gives its output. -/
def run (arguments : List String) : HostRun String := do
  let h ← get
  let (result, h) := h.runVersionControl arguments
  set h
  match result with
  | .missing => throw (.interrupted "git executable not found")
  | .timedOut => throw .timedOut
  | .finished output errors code =>
    if code = 0 then return output
    else
      throw (.interrupted
        ("git " ++ Text.join " " arguments ++ " failed: " ++ Text.trim errors))

/-- The commit that is checked out. -/
def head : HostRun String := do return Text.trim (← run ["rev-parse", "HEAD"])

/-- The arguments that ask whether a commit exists. -/
def existsArguments (anchor : String) : List String :=
  ["cat-file", "-e", anchor ++ "^\x7bcommit\x7d"]

/-- Whether a commit exists; a command that fails says that it does not. -/
def commitExists (anchor : String) : HostRun Bool :=
  ExceptT.mk do
    match ← (run (existsArguments anchor)).run with
    | .ok _ => return .ok true
    | .error (.interrupted _) => return .ok false
    | .error f => return .error f

/-- The differences from one commit to another. -/
def diff (old : Option String) (new : String) : HostRun Diff := do
  match old with
  | none => return .fullResync new
  | some anchor =>
    if anchor.isEmpty then return .fullResync new
    if !(← commitExists anchor) then return .fullResync new
    let (changed, deleted) := Diff.parseListing (← run ["diff", "--name-status", "-M", anchor, new])
    return ⟨new, changed, deleted, false⟩

end Git

end CodeAtlas
