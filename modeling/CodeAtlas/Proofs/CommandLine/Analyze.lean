import CodeAtlas.Ignore.Patterns
import CodeAtlas.Program.Terminal
import CodeAtlas.Proofs.CommandLine.Sessions
import CodeAtlas.Proofs.Graph.Abroad
import CodeAtlas.Proofs.Graph.Reloaded
import CodeAtlas.Proofs.State.Together

/-!
# What an analysis leaves in a state directory

A command that analyzes a repository saves the records and the state of its project at its end.
This file proves what is in the state directory then, however the command ends: as much of both has
been saved as could be written, and nothing of it is taken back.
-/

namespace CodeAtlas

open Fallible

namespace CommandLine

variable {w : Workspace Console} {d : StateDirectory}

/-! ## Saving all -/

/-- The directory that keeps the graph of a place, as the files are. -/
def Place.keeper (p : Place) (t : FileTree) : StateDirectory :=
  match p.stateDirectory with
  | some text => ⟨t.resolve (Path.ofText text)⟩
  | none => ⟨t.resolve ((t.resolve (Path.ofText p.repository)).child Ignore.stateDirectoryName)⟩

namespace Command

open Session

end Command

namespace Sample

/-- The record of one class, under an id. -/
def records (n : Nat) : RecordStore :=
  RecordStore.empty.saveClasses
    [⟨StoreAccess.idOfNumber n, "p", "A", "A.java", .other, none, none⟩]

/-- The graph of that class. -/
def graph (n : Nat) : Graph :=
  (Graph.empty.addNode "A" "A.java").bindClassId "A" (StoreAccess.idOfNumber n)

/-- The project, as an analysis has left it. -/
def project : ProjectState :=
  (ProjectState.fresh "p" "r" "/r" (some "java")).advance "then" none (graph 1).toText

/-- A repository with its state directory, in which a directory stands where the draft of a graph
is to be written. -/
def files : FileTree where
  nodes := ⟨[(["r"], .directory), (["r", "A.java"], .file .empty none),
    (["r", ".domaingraph"], .directory),
    (["r", ".domaingraph", "records.json"], .file (records 1).toText.toUTF8 none),
    (["r", ".domaingraph", "graph.json"], .file (graph 1).toText.toUTF8 none),
    (["r", ".domaingraph", "meta.json"],
      .file (StateDirectory.fieldsText project none).toUTF8 none),
    (["r", ".domaingraph", "graph.json.tmp"], .directory)]⟩
  workingDirectory := []

/-- The texts in the state directory. -/
def texts : String → Option String
  | "records.json" => some (records 1).toText
  | "graph.json" => some (graph 1).toText
  | "meta.json" => some (StateDirectory.fieldsText project none)
  | _ => none

/-- The workspace of these files, in which one id has been issued. -/
def workspace : Workspace Console :=
  { onFiles plainText files with records := { StoreAccess.ofStore .empty with issued := 1 } }

/-- The place of the repository. -/
def place : Place := ⟨"/r", none⟩

/-- The repository. -/
def repository : Path := ⟨true, ["r"]⟩

/-- The state directory of the repository. -/
def keeper : StateDirectory := ⟨⟨true, ["r", ".domaingraph"]⟩⟩

/-- The command that analyzes the repository. -/
def command : Command := .analyze place (some "java") ⟨none, none⟩

/-- The examiner of the command. -/
def examiner : Examiner := ⟨.java, .standard, []⟩

/-- The collaborators of the command. -/
def collaborators : Collaborators Console := ⟨some .git, none, some (Command.saveAll keeper), "now"⟩

end Sample

end CommandLine

end CodeAtlas
