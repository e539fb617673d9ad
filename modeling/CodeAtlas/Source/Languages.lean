import CodeAtlas.FileTree
import CodeAtlas.Json.Limits

/-!
# Languages and frameworks

The languages whose sources are examined, the suffixes of their files, and the marker files
by which a repository's language is told. A script project is also told by its framework.
-/

namespace CodeAtlas

/-- A language whose sources are examined. -/
inductive Language where
  | java
  | typescript
  | go
  | python
  deriving Repr, DecidableEq, Inhabited

namespace Language

/-- The written name. -/
def name : Language → String
  | .java => "java"
  | .typescript => "typescript"
  | .go => "go"
  | .python => "python"

/-- The suffixes of source files. -/
def suffixes : Language → List String
  | .java => [".java"]
  | .typescript => [".ts", ".tsx", ".js", ".jsx"]
  | .go => [".go"]
  | .python => [".py"]

/-- Files at the top of a repository that tell its language. -/
def markers : Language → List String
  | .java => ["pom.xml", "build.gradle", "build.gradle.kts"]
  | .go => ["go.mod"]
  | .typescript => ["package.json"]
  | .python => ["pyproject.toml", "setup.py", "setup.cfg", "requirements.txt"]

/-- The languages in the order in which their markers are looked for. -/
def byMarker : List Language := [.java, .go, .typescript, .python]

/-- The language of a file, by its suffix. -/
def ofPath? (p : Path) : Option Language :=
  [Language.java, .typescript, .go, .python].find? fun l => l.suffixes.contains p.suffix

/-- The language with a name; the files of one language go by two names. -/
def ofName? (s : String) : Option Language :=
  if s = "javascript" then some .typescript
  else [Language.java, .typescript, .go, .python].find? (·.name == s)

/-- Whether a directory holds a marker of the language. -/
def isMarked (l : Language) (t : FileTree) (dir : Path) : Bool :=
  l.markers.any fun m => t.isFile (dir.child m)

/-- The language of a repository, by the first marker. -/
def detect? (t : FileTree) (repository : Path) : Option Language :=
  byMarker.find? fun l => l.isMarked t repository

/-- Every name reads as its language. -/
theorem ofName?_name (l : Language) : ofName? l.name = some l := by
  cases l <;> decide

end Language

/-!
## Frameworks of script projects

The framework of a project is told by the packages that its manifest names; of several the
first in a fixed order counts. The framework decides where the sources are. A text that is no
manifest tells nothing, but one that is nested too deeply for the interpreter is refused.
-/

/-- A framework with the directory of its sources and features that the manifest tells. -/
structure Framework where
  name : String
  sourceRoot : String
  features : Dict String String
  deriving Repr, DecidableEq, Inhabited

namespace Framework

/-- The framework of a project without a telling manifest. -/
def unknown (features : Dict String String) : Framework := ⟨"unknown", "src", features⟩

/-- The packages that tell a framework, its name and its source directory; the first counts. -/
def table : List (List String × String × String) :=
  [(["@nestjs/core"], "nestjs", "src"),
    (["next"], "nextjs", "src"),
    (["nuxt", "nuxt3"], "nuxt", "src"),
    (["@angular/core"], "angular", "src"),
    (["vue"], "vue", "src"),
    (["@remix-run/node", "@remix-run/react"], "remix", "app"),
    (["@sveltejs/kit"], "sveltekit", "src"),
    (["astro"], "astro", "src"),
    (["fastify"], "fastify", "src"),
    (["express"], "express", "src")]

/-- The name of a project's manifest. -/
def manifestName : String := "package.json"

/-- The package that an item of a list of pairs names. A name may be any value but a list or an
object; one that is no text is no package. -/
def packageOfPair (v : Json) : Outcome (Option String) := do
  match ← v.elements with
  | [.string name, _] => return some name
  | [.array _, _] | [.object _, _] => .error .wrongType
  | [_, _] => return none
  | _ => .error (.invalidValue none)

/-- The packages that a value lists: an object by its names, any other value by its pairs. -/
def packagesOf : Json → Outcome (List String)
  | .object fields => .ok (fields.map (·.1))
  | v => do return (← (← v.elements).mapM packageOfPair).filterMap id

/-- The names that a field of the manifest lists with their versions; an empty field lists
none. -/
def listedPackages (manifest : Json) (field : String) : Outcome (List String) :=
  match manifest.field? field with
  | some v => if v.isTruthy then packagesOf v else .ok []
  | none => .ok []

/-- The framework that a set of packages tells. -/
def ofPackages (packages : List String) : Framework :=
  let typed := if packages.contains "typescript" then [("typescript", "true")] else []
  match table.find? fun e => e.1.any packages.contains with
  | some (_, name, root) =>
    let decorated :=
      if name = "nestjs" || name = "angular" then [("decorators", "true")] else []
    ⟨name, root, ⟨typed ++ decorated⟩⟩
  | none => unknown ⟨typed⟩

/-- The framework that a manifest's text tells. -/
def ofManifest (l : Json.Limits) (text : String) : Outcome Framework :=
  match Json.readWithin String l text with
  | .ok (.object fields) => do
    let own ← listedPackages (.object fields) "dependencies"
    let development ← listedPackages (.object fields) "devDependencies"
    return ofPackages (own ++ development)
  | .error (.nestedTooDeeply opened) => .error (.nestedTooDeeply opened)
  | _ => .ok (unknown .empty)

/-- The framework of a project directory. -/
def ofProject (l : Json.Limits) (t : FileTree) (dir : Path) : Outcome Framework :=
  let manifest := dir.child manifestName
  if t.isFile manifest then
    match t.readBytes manifest with
    | .ok content => do ofManifest l (← FileTree.decode content)
    | .error _ => .ok (unknown .empty)
  else .ok (unknown .empty)

end Framework

end CodeAtlas
