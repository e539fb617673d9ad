import CodeAtlas.Graph.Basic
import CodeAtlas.Source.Examiner
import CodeAtlas.Text.Order

/-!
# Surveys of repositories

A survey makes the graph of a repository in three passes: a node for every source file, then
the dependencies, for which all identifiers must be known, then the entry points. A description
adds kinds, methods and parameter links. A file that cannot be examined adds nothing in the
pass concerned, and the other files are not affected.
-/

namespace CodeAtlas

/-- A source file and the unit that it is. -/
structure SourceUnit where
  path : Path
  identifier : String
  deriving Repr, DecidableEq, Inhabited

/-- How far a phase of the work has come. -/
structure Progress where
  phase : String
  done : Nat
  total : Nat
  deriving Repr, DecidableEq, Inhabited

/-- The graph of a repository with the units it was made of and the progress of the work. -/
structure Survey where
  graph : Graph
  units : List SourceUnit
  progress : List Progress
  deriving Inhabited

namespace Progress

/-- A phase begins. -/
def begins (phase : String) : Progress := ⟨phase, 0, 1⟩

/-- A phase is over. -/
def ends (phase : String) : Progress := ⟨phase, 1, 1⟩

end Progress

namespace SourceUnit

/-- The path of a unit's file relative to the repository; a link that leads elsewhere has
none. -/
def relativePath (t : FileTree) (repository : Path) (u : SourceUnit) : Outcome String :=
  match (t.resolve u.path).relativeTo? (t.resolve repository) with
  | some parts => .ok (Path.relative parts).text
  | none => .error (.invalidValue none)

end SourceUnit

namespace Survey

/-- The units of a repository's source files. -/
def unitsOf (e : Examiner) (t : FileTree) (root : Path) (files : List Path) : List SourceUnit :=
  files.map fun f => ⟨f, e.identifier t f root⟩

/-- The graph that has the units as its nodes. -/
def nodesOf (t : FileTree) (repository : Path) (units : List SourceUnit) : Outcome Graph :=
  units.foldlM (fun g u => do
    return g.addNode u.identifier (← u.relativePath t repository)) Graph.empty

/-- Adds the dependencies of one unit, which are given in any order. -/
def addDependencies (g : Graph) (id : String) (targets : List String) : Graph :=
  (Text.sortedSet targets).foldl (fun g target => g.addDependency id target) g

/-- Adds the dependencies of the units, of which `done` have been examined before. -/
def dependencyPass (e : Examiner) (s : Sources) (root : Path) (known : List String)
    (total : Nat) : Nat → List SourceUnit → Graph → Examining (Graph × List Progress)
  | _, [], g => return (g, [])
  | done, u :: us, g => do
    match ← (e.dependencies s u.path root known).attempt with
    | .ok targets =>
      let (g, later) ←
        dependencyPass e s root known total (done + 1) us (addDependencies g u.identifier targets)
      return (g, ⟨"Resolving dependencies", done + 1, total⟩ :: later)
    | .error _ => dependencyPass e s root known total (done + 1) us g

/-- Marks the entry points among the units. -/
def entryPointPass (e : Examiner) (s : Sources) : List SourceUnit → Graph → Examining Graph
  | [], g => return g
  | u :: us, g => do
    match ← (e.isEntryPoint s u.path).attempt with
    | .ok true => entryPointPass e s us (g.markEntryPoint u.identifier)
    | _ => entryPointPass e s us g

/-- The survey of a repository. -/
def take (e : Examiner) (t : FileTree) (repository : Path) : Examining Survey :=
  Examining.inSession do
    let s := Sources.ofFiles t
    let root ← Examining.ofOutcome (e.sourceRoot s repository)
    let files ← Examining.ofOutcome (e.discover s repository)
    let discovery := [Progress.begins "Discovering files", .ends "Discovering files"]
    if files.isEmpty then return ⟨.empty, [], discovery⟩
    let units := unitsOf e t root files
    let g ← Examining.ofOutcome (nodesOf t repository units)
    let (g, dependencies) ← dependencyPass e s root g.identifiers units.length 0 units g
    let g ← entryPointPass e s units g
    let marking := (List.range units.length).map fun n =>
      Progress.mk "Marking entry points" (n + 1) units.length
    return ⟨g, units, discovery ++ dependencies ++ marking⟩

end Survey

/-- What extraction finds out about one unit. -/
structure UnitFacts where
  kind : Kind
  methods : List Method
  parameters : MethodTargets
  deriving Inhabited

/-- The facts of a unit's file. -/
def UnitFacts.extract (e : Examiner) (s : Sources) (root : Path) (known : List String)
    (file : Path) : Examining UnitFacts := do
  let kind ← e.kind s file
  let methods ← e.methods s file
  let parameters ← e.parameterTargets s file root known
  return ⟨kind, methods, parameters⟩

namespace Graph

/-- The links of one method, whose position counts the known units among its parameters. -/
def addMethodParameters (g : Graph) (id name : String) (targets : List String) : Graph :=
  targets.zipIdx.foldl (fun g p => g.addMethodParameter id name p.2 p.1) g

/-- Describes a node by the facts of its unit in place of what was known; it keeps its
description. -/
def describeNode (g : Graph) (id : String) (facts : UnitFacts) : Graph :=
  let g := g.setNodeInfo id ⟨facts.kind, g.description? id⟩
  let g := (g.setMethods id facts.methods).clearMethodParameters id
  facts.parameters.toList.foldl (fun g p => g.addMethodParameters id p.1 p.2) g

/-- Describes the nodes of units. The answer has the units whose extraction failed, which keep
what was known about them. -/
def describeUnits (e : Examiner) (s : Sources) (root : Path) (known : List String) :
    List SourceUnit → Graph → List String → Examining (Graph × List String)
  | [], g, failed => return (g, failed)
  | u :: us, g, failed => do
    if g.contains u.identifier then
      match ← (UnitFacts.extract e s root known u.path).attempt with
      | .ok facts => describeUnits e s root known us (g.describeNode u.identifier facts) failed
      | .error _ => describeUnits e s root known us g (appendNew failed u.identifier)
    else describeUnits e s root known us g failed

/-- The units that are given, or else those of the repository's files. -/
def unitsOrFound (e : Examiner) (s : Sources) (repository root : Path) :
    Option (List SourceUnit) → Outcome (List SourceUnit)
  | some units => .ok units
  | none => do return Survey.unitsOf e s.now root (← e.discover s repository)

/-- The units with certain identifiers, or all if none are named. -/
def wantedUnits (units : List SourceUnit) : Option (List String) → List SourceUnit
  | some ids => units.filter fun u => ids.contains u.identifier
  | none => units

/-- Describes the nodes of a graph from the files of its units, which are looked for again if
they are not given; perhaps only those with certain identifiers. -/
def describe (g : Graph) (e : Examiner) (s : Sources) (repository : Path)
    (units : Option (List SourceUnit)) (only : Option (List String)) :
    Examining (Graph × List String) :=
  Examining.inSession do
    let root ← Examining.ofOutcome (e.sourceRoot s repository)
    let units ← Examining.ofOutcome (unitsOrFound e s repository root units)
    describeUnits e s root g.identifiers (wantedUnits units only) g []

end Graph

end CodeAtlas
