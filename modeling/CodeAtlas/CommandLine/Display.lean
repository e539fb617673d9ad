import CodeAtlas.Json.Printer
import CodeAtlas.Query.Result
import CodeAtlas.Sync.Engine
import CodeAtlas.Text.CharSet
import CodeAtlas.Trace.Context

/-!
# What commands print

The lines that show analyses, syncs, saved graphs, answers to queries and contexts. Values stand
in a column behind their labels.
-/

namespace CodeAtlas.CommandLine

/-- A line with a label and a value. -/
def row (label value : String) : String :=
  "  " ++ label ++ String.ofList (List.replicate (16 - label.length) ' ') ++ value

/-- The first twelve characters of a commit. -/
def shortCommit (commit : String) : String := String.ofList (commit.toList.take 12)

/-- How many units were enriched and how many were not. -/
def enrichedText (enriched failed : Int) : String :=
  toString enriched ++ " (" ++ toString failed ++ " failed)"

/-- Runs take no time that is shown. -/
def durationRow : String := row "Duration:" "0.00s"

/-- The lines that show a finished analysis. -/
def analysisLines (s : AnalysisSummary) (enriching : Bool) : List String :=
  ["[bold green]Analysis complete.[/bold green]", row "Files:" (toString s.files),
    row "Nodes:" (toString s.nodes), row "Edges:" (toString s.edges),
    row "Entry points:" (toString s.entryPoints), row "Methods:" (toString s.methods),
    row "Endpoints:" (toString s.endpoints)] ++
  (if s.parseFailures > 0 then [row "Parse failures:" (toString s.parseFailures)] else []) ++
  (if enriching then [row "Enriched:" (enrichedText s.enriched s.enrichmentFailed)] else []) ++
  (match s.commit with
    | some commit => if commit.isEmpty then [] else [row "Commit:" (shortCommit commit)]
    | none => []) ++
  [durationRow]

/-- The lines that show a sync that did not fail. -/
def syncLines (r : SyncResult) : List String :=
  let commit := shortCommit (r.commit.getD "")
  if r.status = .skipped then ["[bold]Up to date[/bold] at " ++ commit]
  else
    ["[bold green]Synced[/bold green] to " ++ commit] ++
    (if r.full then ["  (full resync)"] else []) ++
    [row "Added:" (toString r.plan.added.length), row "Updated:" (toString r.plan.updated.length),
      row "Deleted:" (toString r.plan.deleted.length),
      row "Unchanged:" (toString r.plan.unchanged.length)] ++
    (if r.counts.enriched ≠ 0 || r.counts.failed ≠ 0 then
      [row "Enriched:" (enrichedText r.counts.enriched r.counts.failed)]
    else []) ++
    [durationRow]

/-- The text of a field that is not empty. -/
def fullField? (item : Json) (name : String) : Option String :=
  match item.field? name with
  | some v => if v.isTruthy then some v.shown else none
  | none => none

/-- The line, or the two lines, of an item of an answer. -/
def itemLine (item : Json) : String :=
  let className := fullField? item "className"
  let head := (className.orElse fun _ => fullField? item "methodName").getD ""
  let kind := (fullField? item "classType").toList.map fun k => "[" ++ k ++ "]"
  let method := match className, item.field? "methodName" with
    | some _, some m => ["#" ++ m.shown]
    | _, _ => []
  let endpoint := (fullField? item "httpMethod").toList.map fun verb =>
    Text.trimEnd (verb ++ " " ++ (fullField? item "httpPath").getD "")
  let found := (item.field? "exists").toList.map fun v =>
    if v.isTruthy then "exists" else "missing"
  let line := Text.join " " (["  " ++ head] ++ kind ++ method ++ endpoint ++ found)
  match fullField? item "description" with
  | some d => line ++ "\n      " ++ d
  | none => line

/-- The lines that show an answer. -/
def answerLines (r : QueryResult) : List String :=
  match r.error with
  | some (kind, message) => ["[red]" ++ kind.code ++ ":[/red] " ++ message]
  | none =>
    ("[bold]" ++ r.resultType ++ "[/bold] (" ++ toString r.count ++ ")") :: r.items.map itemLine

/-- The lines of one step of an execution path. -/
def stepLines (e : ContextEntry) : List String :=
  let marker := if e.found then "[green]+[/green]" else "[red]-[/red]"
  let method := e.methodName.getD "None"
  ("  " ++ marker ++ " " ++ toString e.order ++ ". " ++ e.className ++ "#" ++ method) ::
    match e.description with
    | some d => if d.isEmpty then [] else ["      " ++ d]
    | none => []

/-- The line of a related entry. -/
def relatedLine (e : ContextEntry) : String :=
  match e.methodName with
  | some m => if m.isEmpty then "  " ++ e.className else "  " ++ e.className ++ "#" ++ m
  | none => "  " ++ e.className

/-- The lines that show the context of a stack trace. -/
def contextLines (c : CodeContext) : List String :=
  ("[bold]Execution path[/bold] (" ++ toString c.executionPath.length ++ " frames)") ::
    c.executionPath.flatMap stepLines ++
    if c.related.isEmpty then [] else "[bold]Related[/bold]" :: c.related.map relatedLine

end CodeAtlas.CommandLine
