import CodeAtlas.CommandLine.Run
import CodeAtlas.Ignore.Patterns
import CodeAtlas.Program.Terminal

/-!
# The program

Reads the files below the directories that a command is about, runs the command on them,
writes the files that have changed and prints the output. The syntax tree of a source file is
kept beside it, under the file's name with the ending `.tree.json`. No other programs are
started: version control knows no commit, and analyzers and enrichers do not answer.
-/

namespace CodeAtlas.Program

/-- The ending of the files that hold syntax trees. -/
def treeEnding : String := ".tree.json"

/-- The variable that holds the time of the run. -/
def clockVariable : String := "CODE_ATLAS_CLOCK"

/-- The time of runs for which none is given. -/
def defaultClock : String := "1970-01-01T00:00:00+00:00"

/-- The tree after a change, or as it was if the change is refused. -/
def orUnchanged (t : FileTree) : Except FileError FileTree → FileTree
  | .ok t => t
  | .error _ => t

/-- The syntax tree that stands beside a file, if there is one. -/
def readTree (file : String) : IO (Option SyntaxTree) := do
  try
    let text ← IO.FS.readFile (file ++ treeEnding)
    match Json.read text with
    | .ok v => return some (.ofJson v)
    | .error _ => return none
  catch _ => return none

/-- Whether a directory is looked into. -/
def isEntered (name : String) : Bool :=
  name = Ignore.stateDirectoryName || !Ignore.isIgnoredDirectory name []

/-- Adds a file to a file tree. What cannot be read is left out. -/
def addFile (t : FileTree) (file : String) : IO FileTree := do
  try
    let content ← IO.FS.readBinFile file
    return orUnchanged t (t.writeFile (Path.ofText file) content (← readTree file))
  catch _ => return t

/-- Adds what stands below a directory to a file tree. -/
partial def addBelow (t : FileTree) (directory : String) : IO FileTree := do
  let mut tree := orUnchanged t (t.makeDirectories (Path.ofText directory))
  for entry in ← (← IO.FS.realPath directory).readDir do
    let file := directory ++ "/" ++ entry.fileName
    if ← entry.path.isDir then
      if isEntered entry.fileName then tree ← addBelow tree file
    else if !Text.endsWith file treeEnding then tree ← addFile tree file
  return tree

/-- Adds what stands at a path. What is not there adds nothing. -/
def addPath (t : FileTree) (path : String) : IO FileTree := do
  try
    let real ← IO.FS.realPath path
    if ← real.isDir then addBelow t real.toString
    else
      let parent := (Path.ofText real.toString).parent
      addFile (orUnchanged t (t.makeDirectories parent)) real.toString
  catch _ => return t

/-- The paths that a command reads. -/
def pathsOf : CommandLine.Command → List String
  | .version => []
  | .analyze place .. | .sync place .. | .query _ place _ | .status place | .clean place _ =>
    place.repository :: place.stateDirectory.toList
  | .context place trace => trace :: place.repository :: place.stateDirectory.toList

/-- Whether two nodes are the same, syntax trees left aside. -/
def sameNode : FileNode → FileNode → Bool
  | .file a _, .file b _ => a == b
  | .directory, .directory => true
  | .link a, .link b => a == b
  | _, _ => false

/-- Writes what has changed from one file tree to another. -/
def writeChanges (before after : FileTree) : IO Unit := do
  for (parts, _) in before.nodes.toList do
    if !after.nodes.contains parts then
      let file := "/" ++ Path.joined parts
      try IO.FS.removeFile file catch _ => try IO.FS.removeDirAll file catch _ => pure ()
  for (parts, node) in after.nodes.toList do
    let same := ((before.nodes.get? parts).map (sameNode node)).getD false
    if !same then
      let file := "/" ++ Path.joined parts
      match node with
      | .directory => IO.FS.createDirAll file
      | .file content _ => IO.FS.writeBinFile file content
      | .link _ => pure ()

/-- The variables that commands read. -/
def readEnvironment : IO (Dict String String) := do
  let names := [CommandLine.Command.stateVariable, CommandLine.Command.analyzerVariable,
    CommandLine.Command.enricherVariable]
  let values ← names.mapM fun name => do return (name, ← IO.getEnv name)
  return Dict.ofList (values.filterMap fun e => e.2.map fun v => (e.1, v))

/-- The lines of input, which only a question needs. -/
def readInput : CommandLine.Command → IO (List String)
  | .clean _ false => do
    return CommandLine.linesOfInput (← (← IO.getStdin).getLine)
  | _ => return []

/-- Runs a command on the files of the host. -/
def runOnHost (command : CommandLine.Command) : IO UInt32 := do
  let here := (Path.ofText (← IO.currentDir).toString).parts
  let clock := (← IO.getEnv clockVariable).getD defaultClock
  let files ← (pathsOf command).foldlM addPath { FileTree.empty with workingDirectory := here }
  let input ← readInput command
  let (ending, w) := CommandLine.run .standard clock command input
    (CommandLine.onFiles CommandLine.plainText files)
  writeChanges files w.files
  IO.print ending.output
  match ending.failure with
  | some f => IO.eprintln f.text
  | none => pure ()
  return UInt32.ofNat ending.code

end CodeAtlas.Program

/-- Runs the command line that is given. Misuse ends with two. -/
def main (arguments : List String) : IO UInt32 := do
  match CodeAtlas.CommandLine.Command.ofArguments? (← CodeAtlas.Program.readEnvironment)
    arguments with
  | some command => CodeAtlas.Program.runOnHost command
  | none => return 2
