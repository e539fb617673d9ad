import CodeAtlas.Enrichment.Answer
import CodeAtlas.Json.Reader
import CodeAtlas.Process.Host
import CodeAtlas.Text.CharSet
import CodeAtlas.Text.Order

/-!
# Enrichment in batches

Units are sent to an enricher in batches of a fixed size. A batch that fails marks its own
units as failed and no others; so does an answer that leaves a unit out. Answers about units
that were not asked for are passed over. Batches may finish in any order.
-/

namespace CodeAtlas

/-- What an enricher is told about one unit. -/
structure UnitRequest where
  identifier : String
  sourceText : String
  language : String
  kind : Kind
  methodNames : List String
  deriving Repr, DecidableEq, Inhabited

/-- The written request. -/
def UnitRequest.toJson (u : UnitRequest) : Json :=
  .object [("identifier", .string u.identifier), ("sourceText", .string u.sourceText),
    ("language", .string u.language), ("staticallyInferredKind", .string u.kind.name),
    ("methodNames", Json.ofStrings u.methodNames)]

/-- The answers for one batch, by identifier. -/
abbrev BatchAnswers := Dict String Answer

/-- The units that were answered and those that were not. -/
structure EnrichmentOutcome where
  succeeded : Dict String Answer
  failed : List String
  deriving Inhabited

namespace EnrichmentOutcome

/-- The outcome before any batch. -/
def empty : EnrichmentOutcome := ⟨.empty, []⟩

/-- Adds one unit's answer, or its failure. -/
def addUnit (answers : BatchAnswers) (o : EnrichmentOutcome) (id : String) : EnrichmentOutcome :=
  match answers.get? id with
  | some a => { o with succeeded := o.succeeded.insert id a }
  | none => { o with failed := o.failed ++ [id] }

/-- Adds a finished batch. -/
def addBatch (o : EnrichmentOutcome) (ids : List String) (result : Outcome BatchAnswers) :
    EnrichmentOutcome :=
  match result with
  | .ok answers => ids.foldl (addUnit answers) o
  | .error _ => { o with failed := o.failed ++ ids }

/-- The outcome of batches in the order in which they finish. -/
def ofBatches (finished : List (List String × Outcome BatchAnswers)) : EnrichmentOutcome :=
  finished.foldl (fun o b => o.addBatch b.1 b.2) empty

/-- The written outcome: the answers by identifier and the units without one, both in ascending
order. -/
def fields (o : EnrichmentOutcome) : List (String × Json) :=
  [("succeeded", .array ((Text.sorted o.succeeded.keys).map fun id =>
      .array [.string id, Json.ofOption Answer.summary (o.succeeded.get? id)])),
    ("failed", Json.ofStrings (Text.sorted o.failed))]

end EnrichmentOutcome

/-- The items in groups of `size`, the last perhaps smaller. The count bounds the groups. -/
def chunksWithin {α : Type} (size : Nat) : Nat → List α → List (List α)
  | 0, _ => []
  | _, [] => []
  | bound + 1, xs => xs.take size :: chunksWithin size bound (xs.drop size)

/-- The items in groups of a size of at least one. -/
def chunks {α : Type} (size : Nat) (xs : List α) : List (List α) := chunksWithin size xs.length xs

/-- The batches for a size: none for a negative one; a size of zero is no size. -/
def unitBatches (size : Int) (units : List UnitRequest) : Outcome (List (List UnitRequest)) :=
  if size = 0 then .error (.invalidValue (some "range() arg 3 must not be zero"))
  else if size < 0 then .ok []
  else .ok (chunks size.toNat units)

/-- How many units are sent at once, and how many batches may be under way. -/
def defaultBatchSize : Int := 20

/-- How many batches may be under way. -/
def defaultWorkers : Int := 5

/-- The batches of units, refused for a number of workers below one. Without units nothing is
asked of size and workers. -/
def planBatches (size workers : Int) (units : List UnitRequest) :
    Outcome (List (List UnitRequest)) :=
  if units.isEmpty then .ok []
  else do
    let batches ← unitBatches size units
    if workers ≤ 0 then throw (.invalidValue none)
    return batches

/-- The answers that a document holds, by identifier. -/
def answersOfJson (v : Json) : Outcome BatchAnswers := do
  let fields ← v.asFields
  let answers ← fields.mapM fun f => do return (f.1, ← Answer.ofJson f.2)
  return ⟨answers⟩

end CodeAtlas

/-!
## Enrichers that run as programs

A command gets a batch of units as one document and prints an answer for each by its
identifier. An empty output answers nothing.
-/

namespace CodeAtlas.EnricherCommand

/-- The document that a command gets. -/
def requestJson (units : List UnitRequest) : Json :=
  .object [("units", .array (units.map UnitRequest.toJson))]

/-- A command that has at least the name of a program. -/
def checked (command : List String) : Outcome (List String) :=
  if command.isEmpty then .error (.invalidValue (some "Enricher command must not be empty"))
  else .ok command

/-- The answers of a finished run. -/
def readAnswers (output : String) : Outcome BatchAnswers := do
  answersOfJson (← Json.read (if output.isEmpty then "\x7b\x7d" else output))

/-- Sends a batch to a command. -/
def enrich (command : List String) (units : List UnitRequest) : HostRun BatchAnswers := do
  let h ← get
  set (h.record (.enricher command (requestJson units)))
  match h.enricherRun with
  | .missing => throw .fileNotFound
  | .timedOut => throw .timedOut
  | .finished output errors code =>
    if code = 0 then ExceptT.mk (pure (readAnswers output))
    else
      throw (.interrupted
        ("Enricher exited with " ++ toString code ++ ": " ++ Text.trim errors))

end CodeAtlas.EnricherCommand
