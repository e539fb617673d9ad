import CodeAtlas.Source.Discovery
import CodeAtlas.Source.ExternalAnalyzer
import CodeAtlas.Source.Languages
import CodeAtlas.Source.Go
import CodeAtlas.Source.Java
import CodeAtlas.Source.Python
import CodeAtlas.Source.TypeScript

/-!
# Examining sources

What is asked of the source files of a repository, whatever its language: where sources are,
which files there are, the unit that each file is, its dependencies, whether it is an entry
point, its kind, its methods, and the units that its methods' parameters are. Only an analyzer
that runs as a program makes these answers depend on anything but the files.
-/

namespace CodeAtlas

/-- The files as a session sees them. What has been read is not read again; which files and
directories there are is looked up anew. -/
structure Sources where
  /-- The files as they were when the session began. -/
  kept : FileTree
  now : FileTree
  deriving Inhabited

/-- The files as a session sees them while they do not change. -/
def Sources.ofFiles (t : FileTree) : Sources := ⟨t, t⟩

/-- What sources are examined with. -/
structure Tooling extends Platform where
  /-- The command of the analyzer for script modules; empty if they are analyzed here. -/
  analyzer : List String
  deriving Inhabited

/-- How the sources of a repository are examined. -/
structure Examiner where
  language : Language
  tools : Tooling
  deriving Inhabited

namespace Examiner

/-- The command of the analyzer for script modules. -/
def analyzer (e : Examiner) : List String := e.tools.analyzer

/-- The examiner for a language's name. -/
def ofName (name : String) (tools : Tooling) : Outcome Examiner :=
  match Language.ofName? name with
  | some l => .ok ⟨l, tools⟩
  | none => .error (.invalidValue (some ("Unsupported language: " ++ Text.quoted name)))

/-- The examiner for the language that a repository's marker files tell. -/
def detect (t : FileTree) (repository : Path) (tools : Tooling) : Outcome Examiner :=
  match Language.detect? t repository with
  | some l => .ok ⟨l, tools⟩
  | none =>
    .error (.invalidValue (some ("No supported project marker found in " ++ repository.text)))

/-- The directories that may hold Java sources, the first existing one does. -/
def javaRoots : List (List String) := [["src", "main", "java"], ["src"]]

/-- The directory below which units are named. -/
def sourceRoot (e : Examiner) (s : Sources) (repository : Path) : Outcome Path :=
  match e.language with
  | .java =>
    .ok (((javaRoots.map fun parts => repository.append (.relative parts)).find?
      s.now.isDirectory).getD repository)
  | .go => .ok repository
  | .python => .ok (PythonModule.sourceRoot s.now repository)
  | .typescript => do
    let framework ← Framework.ofProject e.tools.limits s.kept repository
    let candidate := repository.append (Path.ofText framework.sourceRoot)
    return if s.now.isDirectory candidate then candidate else repository

/-- Directories that discovery does not enter besides those that are never entered. -/
def excludedDirectories (e : Examiner) : List String :=
  match e.language with
  | .java => []
  | .go => GoFile.excludedDirectories
  | .python => PythonModule.excludedDirectories
  | .typescript => TypeScript.excludedDirectories

/-- The source files of a repository. -/
def discover (e : Examiner) (s : Sources) (repository : Path) : Outcome (List Path) := do
  s.now.discover repository (← e.sourceRoot s repository)
    ⟨e.language.suffixes, e.excludedDirectories, none, DiscoveryRule.defaultMaxSize,
      e.tools.compile⟩

/-- The identifier of the unit that a file is. -/
def identifier (e : Examiner) (t : FileTree) (file root : Path) : String :=
  match e.language with
  | .python => PythonModule.identifier t file root
  | _ => fileIdentifier t file root

/-- The nearest directory around a file that holds a manifest, or else the file's directory. -/
def scriptProject (t : FileTree) (file : Path) : Path :=
  let resolved := t.resolve file
  ((PythonModule.directoriesAbove resolved.parts.length resolved).find? fun dir =>
    t.isFile (dir.child Framework.manifestName)).getD resolved.parent

/-- The path of a script module in its project, and the project's framework. -/
def scriptSetting (l : Json.Limits) (t : FileTree) (file : Path) : Outcome (String × String) := do
  let project := scriptProject t file
  let relative := ((t.resolve file).relativeTo? project).getD []
  return (Path.joined relative, (← Framework.ofProject l t project).name)

/-- The text of a source file. -/
def sourceText (t : FileTree) (file : Path) : Outcome String :=
  match t.readBytes file with
  | .error _ => .error (.unreadableSource file.text)
  | .ok content =>
    match FileTree.decodeText content with
    | some text => .ok text
    | none => .error (.unreadableSource file.text)

/-- The analysis of a script module that is made here. -/
def analyzeModule (l : Json.Limits) (t : FileTree) (file : Path) : Outcome ModuleAnalysis := do
  let source ← SourceFile.read t file
  let (path, framework) ← scriptSetting l t file
  return TypeScript.analyze source path framework

/-- The analysis of a script module by the analyzer's program. -/
def askAnalyzer (tools : Tooling) (t : FileTree) (file : Path) :
    Examining ModuleAnalysis := do
  let content ← Examining.ofOutcome (sourceText t file)
  let (path, framework) ← Examining.ofOutcome (scriptSetting tools.limits t file)
  Examining.ask tools.analyzer ⟨content, path, framework⟩

/-- The analysis of a script module. -/
def moduleAnalysis (e : Examiner) (s : Sources) (file : Path) : Examining ModuleAnalysis :=
  if e.analyzer.isEmpty then Examining.ofOutcome (analyzeModule e.tools.limits s.kept file)
  else Examining.kept (s.now.resolve file) (askAnalyzer e.tools s.now file)

/-- The components of a path after double dots have been followed as they are written. -/
def followDots (parts : List String) : List String :=
  parts.foldl (fun done p => if p = ".." then done.dropLast else done ++ [p]) []

/-- The last component of a specifier without the suffix of a source file. -/
def dropSuffix (name : String) : String :=
  match Text.splitLast? name "." with
  | some (stem, ending) =>
    if Language.typescript.suffixes.contains ("." ++ ending) then stem else name
  | none => name

/-- The known unit that a specifier of an import means: a module or the index of a directory.
Only specifiers that begin with a dot mean units of the project. -/
def resolveImport? (t : FileTree) (file root : Path) (known : List String) (specifier : String) :
    Option String :=
  if !Text.startsWith specifier "." then none
  else
    let target : Path :=
      ⟨true, followDots ((t.resolve file).parent.append (Path.ofText specifier)).parts⟩
    match target.relativeTo? (t.resolve root) with
    | none | some [] => none
    | some parts =>
      let candidate := Text.join "." (parts.dropLast ++ [dropSuffix (parts.getLast?.getD "")])
      if known.contains candidate then some candidate
      else if known.contains (candidate ++ ".index") then some (candidate ++ ".index")
      else none

/-- The known units that a script module imports. -/
def moduleDependencies (t : FileTree) (file root : Path) (known : List String)
    (a : ModuleAnalysis) : List String :=
  firstOccurrences (a.imports.filterMap fun i => resolveImport? t file root known i.source)

/-- The units of imported names; the last import of a name counts. -/
def importedUnits (t : FileTree) (file root : Path) (known : List String) (a : ModuleAnalysis) :
    Dict String String :=
  Dict.ofList (a.imports.filterMap fun i =>
    (resolveImport? t file root known i.source).map fun unit => (i.localName, unit))

/-- The known units that the parameters of a script module's methods are. -/
def moduleParameterTargets (t : FileTree) (file root : Path) (known : List String)
    (a : ModuleAnalysis) : MethodTargets :=
  let units := importedUnits t file root known a
  a.methods.foldl (fun r m => r.record m.name (m.parameterTypes.filterMap units.get?)) .empty

/-- The methods of a script module as units of the graph have them. -/
def moduleMethods (a : ModuleAnalysis) : List Method :=
  a.methods.map fun m => .extracted m.name [] m.httpMethod m.httpPath m.line

/-- The known units that a file depends on. -/
def dependencies (e : Examiner) (s : Sources) (file root : Path) (known : List String) :
    Examining (List String) :=
  match e.language with
  | .java => Examining.ofOutcome do
    return (JavaFile.ofSource (← SourceFile.read s.kept file)).dependencies known
  | .go => Examining.ofOutcome do
    let g := GoFile.ofSource (← SourceFile.read s.kept file)
    return g.dependencies (← GoFile.modulePath s.kept root) (fileIdentifier s.now file root) known
  | .python => Examining.ofOutcome do
    return (PythonModule.ofSource (← SourceFile.read s.kept file)).dependencies s.now root known
  | .typescript => do
    return moduleDependencies s.now file root known (← e.moduleAnalysis s file)

/-- Whether a file's unit is reached from outside. -/
def isEntryPoint (e : Examiner) (s : Sources) (file : Path) : Examining Bool :=
  match e.language with
  | .java => Examining.ofOutcome do
    return (JavaFile.ofSource (← SourceFile.read s.kept file)).isEntryPoint
  | .go => Examining.ofOutcome do
    return (GoFile.ofSource (← SourceFile.read s.kept file)).isEntryPoint
  | .python => Examining.ofOutcome do
    return (PythonModule.ofSource (← SourceFile.read s.kept file)).isEntryPoint
  | .typescript => do return (← e.moduleAnalysis s file).isEntryPoint

/-- The kind of a file's unit. -/
def kind (e : Examiner) (s : Sources) (file : Path) : Examining Kind :=
  match e.language with
  | .java => Examining.ofOutcome do
    return (JavaFile.ofSource (← SourceFile.read s.kept file)).kind
  | .go => Examining.ofOutcome do
    return (GoFile.ofSource (← SourceFile.read s.kept file)).kind
  | .python => Examining.ofOutcome do
    return (PythonModule.ofSource (← SourceFile.read s.kept file)).kind s.now
  | .typescript => do return (← e.moduleAnalysis s file).kind

/-- The methods of a file's unit, in source order. -/
def methods (e : Examiner) (s : Sources) (file : Path) : Examining (List Method) :=
  match e.language with
  | .java => Examining.ofOutcome do
    return (JavaFile.ofSource (← SourceFile.read s.kept file)).extractedMethods
  | .go => Examining.ofOutcome do
    return (GoFile.ofSource (← SourceFile.read s.kept file)).extractedMethods
  | .python => Examining.ofOutcome do
    return (PythonModule.ofSource (← SourceFile.read s.kept file)).extractedMethods
  | .typescript => do return moduleMethods (← e.moduleAnalysis s file)

/-- The known units that the parameters of a file's methods are. -/
def parameterTargets (e : Examiner) (s : Sources) (file root : Path) (known : List String) :
    Examining MethodTargets :=
  match e.language with
  | .java => Examining.ofOutcome do
    return (JavaFile.ofSource (← SourceFile.read s.kept file)).parameterTargets known
  | .go => Examining.ofOutcome do
    let g := GoFile.ofSource (← SourceFile.read s.kept file)
    g.parameterTargets s.now root (← GoFile.modulePath s.kept root) known
  | .python => Examining.ofOutcome do
    return (PythonModule.ofSource (← SourceFile.read s.kept file)).parameterTargets s.now root known
  | .typescript => do
    return moduleParameterTargets s.now file root known (← e.moduleAnalysis s file)

end Examiner

end CodeAtlas
