import CodeAtlas.Collaborators
import CodeAtlas.Graph.Basic

/-!
# Fresh analyses

A fresh analysis examines a whole repository, replaces the project's records, has the units
enriched, and publishes the graph at the very end. If a write or the saving of the state
fails, the former records are put back and nothing is published.
-/

namespace CodeAtlas

/-- What a fresh analysis found and did. -/
structure AnalysisSummary where
  files : Nat
  nodes : Nat
  edges : Nat
  entryPoints : Nat
  methods : Nat
  endpoints : Nat
  parseFailures : Nat
  enriched : Int
  enrichmentFailed : Int
  commit : Option String
  state : ProjectState
  deriving Repr, DecidableEq, Inhabited

/-- A finished analysis: its graph, its summary and the progress that it reported. -/
structure FreshAnalysis where
  graph : Graph
  summary : AnalysisSummary
  progress : List Progress
  deriving Inhabited

namespace FreshAnalysis

variable {σ : Type}

/-- The examiner for a project: for the language that its state names, or else the one that
the repository's marker files tell. -/
def examinerFor (t : FileTree) (repository : Path) (language : Option String)
    (tools : Tooling) : Outcome Examiner :=
  match language with
  | some name =>
    if name.isEmpty then Examiner.detect t repository tools
    else Examiner.ofName name tools
  | none => Examiner.detect t repository tools

/-- The commit that is checked out; a repository without version control has none. -/
def commitOf (c : Collaborators σ) (repository : Path) : Run σ (Option String) :=
  match c.versionControl with
  | none => return none
  | some v => do
    match ← Run.attempt (v.head repository) with
    | .ok commit => return some commit
    | .error (.interrupted _) => return none
    | .error f => throw f

/-- A class record under a fresh id for every node, to which the node is tied. -/
def stageClasses (project : String) (commit : Option String) (g : Graph) :
    List (String × String) → StoreM (Graph × List ClassRecord)
  | [] => pure (g, [])
  | (identifier, file) :: rest => do
    let id ← StoreAccess.newId
    let record : ClassRecord := ⟨id, project, identifier, file, g.kind identifier, none, commit⟩
    let (g, records) ← stageClasses project commit (g.bindClassId identifier id) rest
    return (g, record :: records)

/-- The method records of stored nodes. -/
def stageAllMethods (g : Graph) : List ClassRecord → StoreM (List MethodRecord)
  | [] => pure []
  | r :: rs => do
    let rows ← stageMethods r.id (g.methodsOf r.identifier)
    return rows ++ (← stageAllMethods g rs)

/-- The link records of stored nodes. -/
def allLinks (g : Graph) (records : List ClassRecord) : List LinkRecord :=
  records.flatMap fun r => g.linkRecords r.identifier

/-- Deletes class records if there are any. -/
def deleteClasses (ids : List String) : Run σ Unit :=
  if ids.isEmpty then return () else Run.write (.deleteClasses ids)

/-- Writes the records of staged nodes: the classes, their methods and their links. -/
def writeStaged (g : Graph) (classes : List ClassRecord) (methods : List MethodRecord) :
    Run σ Unit := do
  Run.write (.saveClasses classes)
  Run.write (.saveMethods methods)
  Run.write (.saveLinks (allLinks g classes))

/-- Replaces the records of a project by those of a graph. -/
def replaceRecords (snap : Snapshot) (commit : Option String) (g : Graph) : Run σ Graph := do
  deleteClasses (snap.classes.map (·.id))
  let (g, classes) ← Run.onStore (stageClasses snap.project commit g g.nodes.toList)
  let methods ← Run.onStore (stageAllMethods g classes)
  writeStaged g classes methods
  return g

/-- Has all nodes enriched if there is an enricher. -/
def enrichAll (c : Collaborators σ) (repository : Path) (e : Examiner) (g : Graph) :
    Run σ (Graph × EnrichmentCounts) :=
  match c.enricher with
  | none => return (g, ⟨0, 0⟩)
  | some enricher => g.enrich enricher repository e.language.name g.analysisOrder

/-- The progress reported after the survey. -/
def laterProgress (c : Collaborators σ) : List Progress :=
  [.begins "Extracting methods", .ends "Extracting methods", .begins "Saving records",
    .ends "Saving records"] ++
  if c.enricher.isSome then [.begins "Enriching", .ends "Enriching"] else []

/-- Keeps a state if there is someone to keep it. -/
def persistState (c : Collaborators σ) (state : ProjectState) : Run σ Unit :=
  match c.persist with
  | none => return ()
  | some persist => persist state

/-- The records, texts and state of a new graph, written one after the other. -/
def store (c : Collaborators σ) (repository : Path) (e : Examiner) (state : ProjectState)
    (commit : Option String) (snap : Snapshot) (g : Graph) :
    Run σ (Graph × EnrichmentCounts × ProjectState) := do
  let g ← replaceRecords snap commit g
  let (g, counts) ← enrichAll c repository e g
  let state := state.advance c.clock commit g.toText
  persistState c state
  return (g, counts, state)

/-- What an analysis has found before anything is written. -/
structure Findings where
  commit : Option String
  survey : Survey
  /-- The graph of the survey with its nodes described. -/
  graph : Graph
  /-- The units whose extraction failed. -/
  failed : List String
  /-- The project's records before the analysis. -/
  snapshot : Snapshot
  deriving Inhabited

/-- Surveys a repository and describes its nodes, in one session of the examiner. -/
def examineAll (e : Examiner) (repository : Path) : Run σ (Survey × Graph × List String) :=
  Run.inSession do
    let t ← Run.files
    let survey ← Run.examine (Survey.take e t repository)
    let (g, failed) ← Run.examine
      (survey.graph.describe e (.ofFiles t) repository (some survey.units) none)
    return (survey, g, failed)

/-- Finds out all about a repository, without writing anything. -/
def find (c : Collaborators σ) (repository : Path) (project : String) (e : Examiner) :
    Run σ Findings := do
  let commit ← commitOf c repository
  let (survey, g, failed) ← examineAll e repository
  let snapshot ← Run.takeSnapshot project
  return ⟨commit, survey, g, failed, snapshot⟩

/-- The finished analysis of what was found. -/
def ofFindings (c : Collaborators σ) (f : Findings) (g : Graph) (counts : EnrichmentCounts)
    (state : ProjectState) : FreshAnalysis :=
  let stats := g.stats
  ⟨g, ⟨f.survey.units.length, stats.nodes, stats.edges, stats.entryPoints, stats.methods,
    g.endpoints.length, f.failed.length, counts.enriched, counts.failed, f.commit, state⟩,
    f.survey.progress ++ laterProgress c⟩

/-- Analyzes a repository afresh and publishes its graph. -/
def run (c : Collaborators σ) (repository : Path) (state : ProjectState) (e : Examiner) :
    Run σ FreshAnalysis := do
  let f ← find c repository state.id e
  let (g, counts, advanced) ←
    Run.orRestore f.snapshot (store c repository e state f.commit f.snapshot f.graph)
  Run.publish state.id state.name g
  return ofFindings c f g counts advanced

/-- The examiner that is given, or else the one for the project. -/
def chooseExaminer (given : Option Examiner) (repository : Path) (state : ProjectState)
    (tools : Tooling) : Run σ Examiner :=
  match given with
  | some e => return e
  | none => do Run.ofOutcome (examinerFor (← Run.files) repository state.language tools)

/-- Analyzes a repository afresh with the examiner that is given, or else the project's. -/
def runWith (c : Collaborators σ) (repository : Path) (state : ProjectState)
    (given : Option Examiner) (tools : Tooling) : Run σ FreshAnalysis := do
  run c repository state (← chooseExaminer given repository state tools)

end FreshAnalysis

end CodeAtlas
