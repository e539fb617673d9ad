import CodeAtlas.Enrichment.Batches
import CodeAtlas.State.Basic
import CodeAtlas.Version.Git
import CodeAtlas.Workspace

/-!
# Collaborators of runs

Who a run asks: version control for commits and their differences, an enricher for texts, and
whoever keeps the states of projects. An enricher is asked in batches; a batch that fails is
counted and is no failure of the run.
-/

namespace CodeAtlas

/-- Version control of a repository. -/
structure VersionControl (σ : Type) where
  /-- The commit that is checked out. -/
  head : Path → Run σ String
  /-- The differences between two commits; from an unknown one every file differs. -/
  diff : Path → Option String → String → Run σ Diff

/-- Answers a batch of units. -/
abbrev Enricher (σ : Type) := List UnitRequest → Run σ BatchAnswers

/-- Who a run asks. -/
structure Collaborators (σ : Type) where
  versionControl : Option (VersionControl σ)
  enricher : Option (Enricher σ)
  /-- Keeps a state of a project. -/
  persist : Option (ProjectState → Run σ Unit)
  /-- The time of the run. -/
  clock : String

namespace VersionControl

/-- Version control by git. -/
def git {σ : Type} : VersionControl σ :=
  ⟨fun _ => Run.onHost Git.head, fun _ old new => Run.onHost (Git.diff old new)⟩

end VersionControl

namespace Enricher

variable {σ : Type}

/-- The enricher that a command is. -/
def ofCommand (command : List String) : Enricher σ := fun units =>
  Run.onHost (EnricherCommand.enrich command units)

/-- Asks for all units in batches. -/
def askAll (enricher : Enricher σ) (size workers : Int) (units : List UnitRequest) :
    Run σ EnrichmentOutcome := do
  let batches ← Run.ofOutcome (planBatches size workers units)
  let finished ← batches.mapM fun b => do
    return (b.map (·.identifier), ← Run.attempt (enricher b))
  return .ofBatches finished

end Enricher

/-- The request for one node, if its file can be read. -/
def UnitRequest.ofNode? (g : Graph) (t : FileTree) (repository : Path) (language id : String) :
    Option UnitRequest := do
  let file ← g.sourceFile? id
  let content ← (t.readBytes (repository.append (Path.ofText file))).toOption
  let text ← FileTree.decodeText content
  return ⟨id, text, language, g.kind id, (g.methodsOf id).map (·.name)⟩

/-- How many units were enriched and how many were not. -/
structure EnrichmentCounts where
  enriched : Int
  failed : Int
  deriving Repr, DecidableEq, Inhabited

namespace Graph

/-- Has nodes enriched and writes the answers to the graph and the records. -/
def enrich {σ : Type} (g : Graph) (enricher : Enricher σ) (repository : Path) (language : String)
    (ids : List String) : Run σ (Graph × EnrichmentCounts) := do
  let t ← Run.files
  let units := ids.filterMap (UnitRequest.ofNode? g t repository language)
  let outcome ← enricher.askAll defaultBatchSize defaultWorkers units
  let (g, refused) ← Run.onStore (g.writeBack outcome.succeeded.toList)
  return (g, ⟨outcome.succeeded.size - refused.length, outcome.failed.length + refused.length⟩)

end Graph

end CodeAtlas
