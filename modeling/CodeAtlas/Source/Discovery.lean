import CodeAtlas.Ignore.Rules

/-!
# Discovery of source files

A walk below the source root that enters neither hidden nor ignored directories and no links
to directories. It keeps the files with a wanted suffix that no rule ignores and that are not
too large, sorted by path components.
-/

namespace CodeAtlas

/-- Which files a walk keeps. -/
structure DiscoveryRule where
  /-- The suffixes of wanted files, with their dots. -/
  suffixes : List String
  /-- Further names of directories that are not entered. -/
  extraDirectories : List String
  /-- Ignore patterns, relative to the repository; by default those of its ignore file. -/
  patterns : Option (List String)
  /-- The largest size in bytes. -/
  maxSize : Int
  /-- The library that tells what patterns mean. -/
  compile : List String → Outcome (String → Bool)
  deriving Inhabited

namespace DiscoveryRule

/-- The size above which files are skipped. -/
def defaultMaxSize : Int := 5 * 1024 * 1024

/-- Whether a directory is entered. -/
def enters (r : DiscoveryRule) (name : String) : Bool :=
  !Text.startsWith name "." && !Ignore.isIgnoredDirectory name r.extraDirectories

/-- Whether a file is small enough to be kept; a link that leads nowhere has no size. -/
def fits (r : DiscoveryRule) (t : FileTree) (p : Path) : Bool :=
  match t.size? p with
  | some n => (n : Int) ≤ r.maxSize
  | none => false

/-- Whether the walk keeps a file, given by its components from the root. -/
def keeps (r : DiscoveryRule) (t : FileTree) (repository : Path) (patterns : List String)
    (parts : List String) : Outcome Bool :=
  let path : Path := ⟨true, parts⟩
  if !r.suffixes.contains path.suffix then .ok false
  else
    match path.relativeTo? repository with
    | none => .error (.invalidValue none)
    | some relative => do
      if ← Ignore.shouldIgnore r.compile (Path.relative relative) patterns r.extraDirectories then
        return false
      return r.fits t path

end DiscoveryRule

namespace FileTree

/-- The files that a walk from a directory meets. The count bounds the depth. -/
def walk (t : FileTree) (r : DiscoveryRule) : Nat → List String → List (List String)
  | 0, _ => []
  | depth + 1, dir =>
    (t.namesBelow dir).flatMap fun name =>
      let here := dir ++ [name]
      match t.node? here with
      | some .directory => if r.enters name then t.walk r depth here else []
      | some (.file ..) => [here]
      | some (.link _) => if t.isDirectory ⟨true, here⟩ then [] else [here]
      | none => []

/-- The source files below a root, in the order of their components. -/
def discover (t : FileTree) (repository root : Path) (r : DiscoveryRule) : Outcome (List Path) := do
  let repository := t.resolve repository
  let root := t.resolve root
  if !t.isDirectory root then return []
  let patterns ← match r.patterns with
    | some patterns => pure patterns
    | none => Ignore.load t repository
  let kept ← (t.walk r (t.nodes.size + 1) root.parts).filterM fun parts =>
    r.keeps t repository patterns parts
  return Path.sorted (kept.map fun parts => ⟨true, parts⟩)

end FileTree

end CodeAtlas
