import CodeAtlas.Record.Access
import CodeAtlas.Enrichment.Answer

/-!
# Between graphs and records

What of a graph is stored and how a stored unit comes back into a graph; how an enricher's
answer is written to both; and how all records of a project are put back as they were.
-/

namespace CodeAtlas

/-- The records of methods, each under a fresh id. -/
def stageMethods (classId : String) : List Method → StoreM (List MethodRecord)
  | [] => pure []
  | m :: ms => do
    let id ← StoreAccess.newId
    return MethodRecord.ofMethod id classId m :: (← stageMethods classId ms)

namespace Graph

/-- The records of a node's parameter links; links from or to nodes without a record are
not stored. -/
def linkRecords (g : Graph) (id : String) : List LinkRecord :=
  match g.classId? id with
  | none => []
  | some owner =>
    (g.linksOf id).toList.flatMap fun (name, links) =>
      links.filterMap fun l =>
        (g.classId? l.target).map fun target => ⟨owner, name, l.position, target⟩

/-- A stored node's kind, description, methods and links, put into a graph. `names` tells which
node each class id stands for. -/
def restoreNode (g : Graph) (s : RecordStore) (r : ClassRecord) (names : Dict String String) :
    Graph :=
  let g := g.bindClassId r.identifier r.id
  let g := g.setNodeInfo r.identifier ⟨r.kind, r.description⟩
  let g := g.setMethods r.identifier ((s.methodsFor r.id).map MethodRecord.method)
  let g := g.clearMethodParameters r.identifier
  (s.linksFor r.id).foldl (fun g l =>
    match names.get? l.targetId with
    | some target => g.addMethodParameter r.identifier l.methodName l.position target
    | none => g) g

/-- The graph with an answer, and whether the answer's node exists. -/
def withAnswer (g : Graph) (id : String) (a : Answer) : Graph × Bool :=
  g.applyEnrichment id a.correctedKind? a.description a.methodTexts

/-- The class record with a node's kind and description. -/
def updatedClass (g : Graph) (id : String) (r : ClassRecord) : ClassRecord :=
  { r with kind := g.kind id, description := g.description? id }

/-- The method records that have the name of a node's method, with its texts. Of several
methods of one name the last counts. -/
def updatedMethods (g : Graph) (id : String) (rows : List MethodRecord) : List MethodRecord :=
  let byName := Dict.ofList ((g.methodsOf id).map fun m => (m.name, m))
  rows.filterMap fun r =>
    (byName.get? r.name).map fun m =>
      { r with description := m.description, businessLogic := m.businessLogic }

/-- The write of a node's kind and description to its class record, if that is stored. -/
def classWrites (g : Graph) (id : String) (record : Option ClassRecord) : List StoreWrite :=
  match record with
  | some r => [.saveClasses [g.updatedClass id r]]
  | none => []

/-- Writes a node's method texts to the rows of its class, if there are any. -/
def saveTexts (g : Graph) (id classId : String) : StoreM (Outcome Unit) := do
  let s ← StoreAccess.current
  match g.updatedMethods id (s.methodsFor classId) with
  | [] => return .ok ()
  | r :: rows => StoreAccess.write (.saveMethods (r :: rows))

/-- Writes a node's kind, description and method texts to its records. -/
def writeThrough (g : Graph) (id : String) : StoreM (Outcome Unit) := do
  match g.classId? id with
  | none => return .ok ()
  | some classId =>
    let s ← StoreAccess.current
    match ← StoreAccess.writeAll (g.classWrites id (s.getClass? classId)) with
    | .error f => return .error f
    | .ok _ => g.saveTexts id classId

/-- Puts an answer into the graph and the store. The graph has the answer even if the store
refuses it. -/
def applyAnswer (g : Graph) (id : String) (a : Answer) : StoreM (Graph × Outcome Bool) := do
  let (g, known) := g.withAnswer id a
  if known then
    match ← g.writeThrough id with
    | .ok _ => return (g, .ok true)
    | .error f => return (g, .error f)
  else return (g, .ok false)

/-- The graph `now` with a node's metadata as `g` has it. What `g` does not know of the node's
kind is not taken back. -/
def revertNode (g now : Graph) (id : String) : Graph :=
  let now := match g.nodeInfo? id with
    | some i => now.setNodeInfo id i
    | none => now
  now.setMethods id (g.methodsOf id)

/-- Puts one answer into the graph and the store; if the store refuses it, the node and its
records are put back as they were. The answer tells whether the store took it. -/
def writeBackOne (g : Graph) (id : String) (a : Answer) : StoreM (Graph × Bool) := do
  let s ← StoreAccess.current
  let record := (g.classId? id).bind s.getClass?
  let rows := ((g.classId? id).map s.methodsFor).getD []
  match ← g.applyAnswer id a with
  | (now, .ok _) => return (now, true)
  | (now, .error _) =>
    match record with
    | some r =>
      let _ ← StoreAccess.writeAll [.saveClasses [r], .saveMethods rows]
      return (g.revertNode now id, false)
    | none => return (g.revertNode now id, false)

/-- Puts every answer into the graph and the store, one unit at a time. The second part of the
result lists the units whose answers the store refused. -/
def writeBack (g : Graph) : List (String × Answer) → StoreM (Graph × List String)
  | [] => pure (g, [])
  | (id, a) :: rest => do
    let (g, taken) ← g.writeBackOne id a
    let (g, failed) ← g.writeBack rest
    return (g, if taken then failed else id :: failed)

end Graph

/-- Every record of a project at one point in time. -/
structure Snapshot where
  project : String
  classes : List ClassRecord
  methods : List MethodRecord
  links : List LinkRecord
  deriving Repr, DecidableEq, Inhabited

namespace Snapshot

/-- The records of a project as they are now. -/
def take (s : RecordStore) (project : String) : Snapshot :=
  let classes := s.findByProject project
  ⟨project, classes, classes.flatMap fun r => s.methodsFor r.id,
    classes.flatMap fun r => s.linksFor r.id⟩

/-- Replaces the project's records by those of the snapshot. -/
def restore (snap : Snapshot) : StoreM (Outcome Unit) := do
  let s ← StoreAccess.current
  let deletions := match s.findByProject snap.project with
    | [] => []
    | rs => [StoreWrite.deleteClasses (rs.map (·.id))]
  StoreAccess.writeAll
    (deletions ++ [.saveClasses snap.classes, .saveMethods snap.methods, .saveLinks snap.links])

end Snapshot

end CodeAtlas
