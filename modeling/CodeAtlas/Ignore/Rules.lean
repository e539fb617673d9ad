import CodeAtlas.FileTree
import CodeAtlas.Platform
import CodeAtlas.Text.CharSet
import CodeAtlas.Text.Pieces

/-!
# What is ignored

Names of directories that are never entered, name patterns of files that are never examined,
and the repository's own ignore file.
-/

namespace CodeAtlas.Ignore

/-- The name of the directory that holds a repository's saved state. -/
def stateDirectoryName : String := ".domaingraph"

/-- Directories of tools, build output, dependencies and tests. -/
def directoryNames : List String :=
  [".git", ".hg", ".svn", stateDirectoryName, ".idea", ".vscode",
    "build", "dist", "out", "target", "bin", ".next", ".nuxt", ".gradle", "coverage", "htmlcov",
    "node_modules", "vendor", "third_party", ".venv", "venv", "__pycache__", ".tox",
    ".mypy_cache", ".pytest_cache",
    "test", "tests", "__tests__", "__mocks__", "testdata"]

/-- A name pattern whose only wild card is a star. -/
def starMatch : List Char → List Char → Bool
  | [], cs => cs.isEmpty
  | '*' :: ps, cs => (List.range (cs.length + 1)).any fun n => starMatch ps (cs.drop n)
  | p :: ps, c :: cs => p == c && starMatch ps cs
  | _ :: _, [] => false

/-- Names of generated, declaration-only, bundled and test files. -/
def filePatterns : List String :=
  ["*.d.ts", "*.min.js", "*.bundle.js", "*.spec.*", "*.test.*", "*_test.go", "*.pb.go",
    "*_generated.go", "*_gen.go", "test_*.py", "*_test.py", "conftest.py"]

/-- Whether a directory of this name is not entered. -/
def isIgnoredDirectory (name : String) (extra : List String) : Bool :=
  directoryNames.contains name || extra.contains name

/-- Whether a file of this name is not examined. -/
def isIgnoredFile (name : String) : Bool :=
  filePatterns.any fun p => starMatch p.toList name.toList

/-- The paths that patterns ignore; without patterns there are none. -/
def meaning (compile : List String → Outcome (String → Bool)) (patterns : List String) :
    Outcome (String → Bool) :=
  if patterns.isEmpty then .ok fun _ => false else compile patterns

/-- Whether a file is skipped: below an ignored directory, by its own name, or by patterns. -/
def shouldIgnore (compile : List String → Outcome (String → Bool)) (path : Path)
    (patterns extra : List String) : Outcome Bool :=
  if path.parts.dropLast.any fun d => isIgnoredDirectory d extra then .ok true
  else if isIgnoredFile path.name then .ok true
  else do return (← meaning compile patterns) path.text

/-- The lines of an ignore file that are neither blank nor comments. -/
def patternLines (text : String) : List String :=
  ((Text.lines text).map Text.trim).filter fun l => l ≠ "" && !Text.startsWith l "#"

/-- The patterns of a repository's ignore file; none without a file. -/
def load (t : FileTree) (repository : Path) : Outcome (List String) :=
  let path := repository.child ".gitignore"
  if t.isFile path then
    match t.readBytes path with
    | .ok content => (FileTree.decode content).map patternLines
    | .error _ => .ok []
  else .ok []

end CodeAtlas.Ignore
