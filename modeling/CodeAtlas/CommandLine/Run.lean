import CodeAtlas.CommandLine.Console
import CodeAtlas.CommandLine.Display
import CodeAtlas.CommandLine.Words
import CodeAtlas.Graph.Document
import CodeAtlas.Record.Document
import CodeAtlas.State.Files
import CodeAtlas.Sync.Engine

/-!
# Running commands

Every command works on a repository and on the directory that keeps its graph. A run ends with
an exit code: zero if all went well, and one if the command could not do its work. A failure that
no command expects ends it with one and is told apart.
-/

namespace CodeAtlas.CommandLine

open Session

/-- The repository that a command is about, and where its graph is kept if not inside it. -/
structure Place where
  repository : String
  stateDirectory : Option String
  deriving Repr, DecidableEq, Inhabited

/-- Programs that do part of the work, as they were given. -/
structure Programs where
  analyzer : Option String
  enricher : Option String
  deriving Repr, DecidableEq, Inhabited

/-- What is asked. -/
inductive Command where
  /-- Prints the version. -/
  | version
  /-- Makes the graph of a repository from scratch. -/
  | analyze (place : Place) (language : Option String) (programs : Programs)
  /-- Brings the graph up to the commit that is checked out. -/
  | sync (place : Place) (programs : Programs)
  /-- Answers a query. -/
  | query (text : String) (place : Place) (asJson : Bool)
  /-- Shows what surrounds the stack trace in a file. -/
  | context (place : Place) (trace : String)
  /-- Shows how the graph stands. -/
  | status (place : Place)
  /-- Deletes the graph. -/
  | clean (place : Place) (force : Bool)
  deriving Repr, DecidableEq, Inhabited

/-- How a run ends. -/
structure Ending where
  code : Nat
  output : String
  /-- The failure that no command expects. -/
  failure : Option Failure
  deriving Repr, DecidableEq, Inhabited

namespace Command

/-- Whether a failure is told as an error of the command: the host, the files or a value are to
blame. -/
def isExpected : Failure → Bool
  | .invalidValue _ | .malformedDocument | .nestedTooDeeply _ | .undecodable _
  | .malformedPattern _ | .malformedCommand _ | .interrupted _ | .fileNotFound
  | .fileRefused _ => true
  | _ => false

/-- The repository of a place, which must be a directory. -/
def repositoryOf (p : Place) : Session Path := do
  let t ← files
  let repository := t.resolve (Path.ofText p.repository)
  if t.isDirectory repository then return repository
  else fail (repository.text ++ " is not a directory.")

/-- The directory that keeps the graph of a place. -/
def stateDirectoryOf (p : Place) (repository : Path) : Session StateDirectory := do
  let t ← files
  match p.stateDirectory with
  | some text => return ⟨t.resolve (Path.ofText text)⟩
  | none => return ⟨t.resolve (repository.child Ignore.stateDirectoryName)⟩

/-- Ends because a repository has no graph. -/
def failWithoutGraph {α : Type} (repository : Path) : Session α :=
  fail ("No graph found for " ++ repository.text ++ ". Run 'domaingraph analyze' first.")

/-- The saved state of a repository, which must have one. -/
def savedState (d : StateDirectory) (repository : Path) : Session ProjectState := do
  match ← ofOutcome (d.load (← files)) with
  | some state => return state
  | none => failWithoutGraph repository

/-- Takes over the saved records. -/
def loadRecords (d : StateDirectory) : Session Unit := do
  let t ← files
  let text ←
    if t.isFile d.recordsPath then some <$> ofOutcome (StateDirectory.readText t d.recordsPath)
    else pure none
  let s ← ofOutcome (RecordStore.ofText? text)
  modify fun w => { w with records := { w.records with store := s } }

/-- The sizes of a state's graph, if it has one, whoever has written it. -/
def sizesOf (state : ProjectState) : Outcome (Option Json) :=
  match state.graphText with
  | some text => do
    let d : ForeignDocument ← SpelledGraph.ofText text
    return some d.graph.stats.toJson
  | none => .ok none

/-- Saves a state together with the records. -/
def saveAll (d : StateDirectory) (state : ProjectState) : Run Console Unit := do
  let sizes ← Run.ofOutcome (sizesOf state)
  Run.changeFiles fun t => t.makeDirectories d.path
  let s ← Run.store
  Run.changeFiles fun t => t.writeText d.recordsPath s.toText
  let (o, t) := d.save (← Run.files) state sizes
  modify fun w => { w with files := t }
  Run.ofOutcome o

/-- The enricher that a command makes; none for an empty one. -/
def enricherOf (command : Option String) : Session (Option (Enricher Console)) := do
  let words ← ofOutcome (wordsOf? command)
  return if words.isEmpty then none else some (Enricher.ofCommand words)

/-- The examiner for a repository. -/
def examinerOf (platform : Platform) (t : FileTree) (repository : Path)
    (language analyzer : Option String) : Outcome Examiner := do
  FreshAnalysis.examinerFor t repository language ⟨platform, ← wordsOf? analyzer⟩

/-- The outcome, an expected failure being told as an error of the command. -/
def orFail {α : Type} (label : String) : Outcome α → Session α
  | .ok a => return a
  | .error f => if isExpected f then fail (label ++ f.text) else ofOutcome (.error f)

/-- Makes the graph of a repository from scratch. -/
def runAnalyze (platform : Platform) (clock : String) (place : Place) (language : Option String)
    (programs : Programs) : Session Unit := do
  let repository ← repositoryOf place
  let d ← stateDirectoryOf place repository
  let previous ← ofOutcome (d.load (← files))
  let e ← orFail "" (examinerOf platform (← files) repository language programs.analyzer)
  let id ← match previous with
    | some state => pure state.id
    | none => ExceptT.lift (Run.onStore StoreAccess.newId)
  loadRecords d
  let enricher ← enricherOf programs.enricher
  print ("[bold]Analysing[/bold] " ++ repository.text ++ " (" ++ e.language.name ++ ")")
  let state := ProjectState.fresh id repository.name repository.text (some e.language.name)
  let c : Collaborators Console := ⟨some .git, enricher, some (saveAll d), clock⟩
  let a ← andThen
    (do orFail "Analysis failed: " (← attempt (FreshAnalysis.run c repository state e)))
    (writeLine "")
  writeLine ""
  printAll (analysisLines a.summary enricher.isSome)

/-- Brings the graph of a repository up to the commit that is checked out. -/
def runSync (platform : Platform) (clock : String) (place : Place) (programs : Programs) :
    Session Unit := do
  let repository ← repositoryOf place
  let d ← stateDirectoryOf place repository
  let state ← savedState d repository
  loadRecords d
  let analyzer ← ofOutcome (wordsOf? programs.analyzer)
  let enricher ← enricherOf programs.enricher
  let engine : SyncEngine Console := ⟨.git, enricher, some (saveAll d), clock, ⟨platform, analyzer⟩⟩
  let r ← ExceptT.lift (engine.sync state)
  match r.error with
  | some e => do
    print ("[red]Sync failed:[/red] " ++ e)
    leave 1
  | none => printAll (syncLines r)

/-- The saved state of a place and its graph. -/
def savedGraph (place : Place) : Session (Registry × ProjectState) := do
  let repository ← repositoryOf place
  let d ← stateDirectoryOf place repository
  let state ← savedState d repository
  let (registry, loaded) ← ofOutcome (Registry.empty.reload state)
  if loaded then return (registry, state)
  else fail ("Saved graph for " ++ repository.text ++ " is missing or unreadable.")

/-- Answers a query. -/
def runQuery (text : String) (place : Place) (asJson : Bool) : Session Unit := do
  let (registry, _) ← savedGraph place
  let r ← ofOutcome (registry.execute (some text))
  if asJson then writeLine r.toJson.pretty else printAll (answerLines r)
  if !r.ok then leave 1

/-- Shows what surrounds the stack trace in a file. -/
def runContext (place : Place) (trace : String) : Session Unit := do
  let (registry, state) ← savedGraph place
  let path := Path.ofText trace
  match StateDirectory.readText (← files) path with
  | .error (.fileRefused e) => fail ("Cannot read " ++ path.text ++ ": " ++ e.message)
  | .error f => ofOutcome (.error f)
  | .ok text =>
    let frames := Frame.parseTrace text
    if frames.isEmpty then
      print "[yellow]No stack frames recognised.[/yellow]"
      leave 1
    else
      let g := (registry.get? state.id).getD .empty
      printAll (contextLines (g.contextOf frames))

/-- The text that a field shows, or a question mark if it is not there. -/
def shownField (v : Json) (name : String) : Outcome String := do
  return ((← v.optional name).map Json.shown).getD "?"

/-- The text that a field shows, or a default if it is empty or not there. -/
def fullText (v : Json) (name dflt : String) : String := (fullField? v name).getD dflt

/-- The beginning of the commit that a field names. -/
def shownAnchor (v : Json) : Outcome String :=
  match v.field? "anchor" with
  | some (.array items) =>
    .ok (if items.isEmpty then "-" else (Json.array (items.take 12)).shown)
  | some (.string s) => .ok (if s.isEmpty then "-" else shortCommit s)
  | some v => if v.isTruthy then .error .wrongType else .ok "-"
  | none => .ok "-"

/-- Shows how the graph of a repository stands. -/
def runStatus (place : Place) : Session Unit := do
  let repository ← repositoryOf place
  let d ← stateDirectoryOf place repository
  let saved ← ofOutcome (d.readMeta (← files))
  if !saved.isTruthy then failWithoutGraph repository
  let sizes := (← ofOutcome (saved.optional "stats")).getD (.object [])
  print ("[bold]Graph status for[/bold] " ++ repository.text)
  print (row "Version:" (← ofOutcome (shownField saved "version")))
  print (row "Language:" (fullText saved "language" "?"))
  print (row "Status:" (← ofOutcome (shownField saved "status")))
  print (row "Anchor:" (← ofOutcome (shownAnchor saved)))
  print (row "Last synced:" (fullText saved "last_synced_at" "?"))
  print (row "Nodes:" (← ofOutcome (shownField sizes "nodes")))
  print (row "Edges:" (← ofOutcome (shownField sizes "edges")))
  print (row "Entry points:" (← ofOutcome (shownField sizes "entry_points")))
  print (row "Methods:" (← ofOutcome (shownField sizes "methods")))
  match fullField? saved "error" with
  | some e => print ("  [red]Error:[/red]          " ++ e)
  | none => return ()

/-- Asks until the answer is yes or no. Without an answer the command is given up. The count
bounds the questions by the lines of input. -/
def confirm (question : String) : Nat → Session Bool
  | 0 => do
    write question
    writeLine "Aborted."
    leave 1
  | bound + 1 => do
    write question
    match ← readLine? with
    | none => do
      writeLine "Aborted."
      leave 1
    | some line => do
      writeLine line
      let answer := Text.trim (Text.toLower line)
      if answer = "y" || answer = "yes" then return true
      else if answer = "n" || answer = "no" || answer.isEmpty then return false
      else
        writeLine "Error: invalid input"
        confirm question bound

/-- Deletes the graph of a repository, after a question unless it is forced. -/
def runClean (place : Place) (force : Bool) : Session Unit := do
  let repository ← repositoryOf place
  let d ← stateDirectoryOf place repository
  if !(← files).pathExists d.path then
    fail ("No graph found at " ++ repository.text ++ ". Nothing to clean.")
  let lines := (← get).collaborators.input.length
  let agreed ←
    if force then pure true
    else confirm ("Delete graph state at " ++ d.path.text ++ "? [y/N]: ") lines
  if agreed then
    let t ← ofOutcome (d.clear (← files))
    modify fun w => { w with files := t }
    print ("[green]Deleted[/green] " ++ d.path.text)
  else print "Aborted."

/-- Does what a command asks. -/
def session (platform : Platform) (clock : String) : Command → Session Unit
  | .version => print ("domaingraph v" ++ StateDirectory.version)
  | .analyze place language programs => runAnalyze platform clock place language programs
  | .sync place programs => runSync platform clock place programs
  | .query text place asJson => runQuery text place asJson
  | .context place trace => runContext place trace
  | .status place => runStatus place
  | .clean place force => runClean place force

end Command

/-- The lines of an input. -/
def linesOfInput (input : String) : List String :=
  let lines := Text.split (Text.unified input) '\n'
  if lines.getLast? = some "" then lines.dropLast else lines

/-- The workspace in which a run begins: nothing is kept but the files, the programs of the host
and the ids that have been issued. -/
def prepare (input : List String) (w : Workspace Console) : Workspace Console :=
  { w with
    vanishing := []
    records := { StoreAccess.ofStore .empty with issued := w.records.issued }
    registry := .empty
    examiner := { w.examiner with session := none }
    syncing := []
    collaborators := { w.collaborators with output := "", input } }

/-- Runs a command, with the lines of its input. -/
def run (platform : Platform) (clock : String) (command : Command) (input : List String)
    (w : Workspace Console) : Ending × Workspace Console :=
  let (result, w) := (command.session platform clock).run.run.run (prepare input w)
  let output := w.collaborators.output
  match result with
  | .ok (.ok _) => (⟨0, output, none⟩, w)
  | .ok (.error code) => (⟨code, output, none⟩, w)
  | .error f => (⟨1, output, some f⟩, w)

end CodeAtlas.CommandLine
