import CodeAtlas.Failure
import CodeAtlas.Path
import CodeAtlas.Source.SyntaxTree
import CodeAtlas.Text.Lines

/-!
# File trees

The files, directories and symbolic links of a tree, by absolute path. Links are followed
where a file or directory is asked for. Source files carry the syntax tree of their text.
Changes fail the way file systems let them fail, with a code and the path concerned.
-/

namespace CodeAtlas

/-- What stands at a path. -/
inductive FileNode where
  | file (content : ByteArray) (tree : Option SyntaxTree)
  | directory
  | link (target : String)
  deriving Inhabited

/-- A file tree: what stands at each path, given by its components below the root, and the
directory from which relative paths are read. -/
structure FileTree where
  nodes : Dict (List String) FileNode
  workingDirectory : List String
  deriving Inhabited

namespace FileTree

/-- The tree that has only its root. -/
def empty : FileTree := ⟨.empty, []⟩

/-- Where a path is read from: the root or the working directory. -/
def origin (t : FileTree) (p : Path) : List String := if p.absolute then [] else t.workingDirectory

/-- What stands at a path, without following a link there. -/
def node? (t : FileTree) (parts : List String) : Option FileNode :=
  if parts.isEmpty then some .directory else t.nodes.get? parts

/-- Whether a directory stands at a path. -/
def hasDirectory (t : FileTree) (parts : List String) : Bool :=
  match t.node? parts with
  | some .directory => true
  | _ => false

theorem hasDirectory_iff {t : FileTree} {parts : List String} :
    t.hasDirectory parts = true ↔ t.node? parts = some .directory := by
  unfold hasDirectory
  split
  · next h => simp [h]
  · next h => simpa using h

/-- The target of a link that stands at a path. -/
def linkTarget? (t : FileTree) (parts : List String) : Option Path :=
  match t.node? parts with
  | some (.link target) => some (Path.ofText target)
  | _ => none

/-- Where a link's target is read from: the root or the directory of the link. -/
def linkBase (target : Path) (done : List String) : List String :=
  if target.absolute then [] else done

/-- Walks along the components of a path up to the first link, of which `follow` takes care.
`done` is what has been resolved; what does not exist is taken as it is written. -/
def resolveWith (t : FileTree) (follow : List String → List String → List String) :
    List String → List String → List String
  | done, [] => done
  | done, name :: rest =>
    if name = ".." then resolveWith t follow done.dropLast rest
    else
      match t.linkTarget? (done ++ [name]) with
      | some target => follow (linkBase target done) (target.parts ++ rest)
      | none => resolveWith t follow (done ++ [name]) rest

/-- The components of a path from the root, after all links and double dots have been
followed. At most `hops` links are followed. -/
def resolveFrom (t : FileTree) : Nat → List String → List String → List String
  | 0, done, todo =>
    todo.foldl (fun done name => if name = ".." then done.dropLast else done ++ [name]) done
  | hops + 1, done, todo => resolveWith t (resolveFrom t hops) done todo

/-- The most links that one path may lead through. -/
def maxHops : Nat := 40

/-- The path with links and double dots followed. -/
def resolve (t : FileTree) (p : Path) : Path := ⟨true, t.resolveFrom maxHops (t.origin p) p.parts⟩

/-- The step of a path to what stands at `here`, if more components follow or not. -/
def enter (t : FileTree) (here : List String) (last : Bool) : Except FileErrorKind Unit :=
  match t.node? here with
  | some .directory => .ok ()
  | some (.file ..) => if last then .ok () else .error .notADirectory
  | some (.link _) => .error .notFound
  | none => if last then .ok () else .error .notFound

/-- Walks along the components of a path, all of which must be there, up to the first link.
`follow` takes care of the links; without it a link leads nowhere. -/
def locateWith (t : FileTree)
    (follow : Option (List String → List String → Except FileErrorKind (List String))) :
    List String → List String → Except FileErrorKind (List String)
  | done, [] => .ok done
  | done, name :: rest =>
    if name = ".." then locateWith t follow done.dropLast rest
    else
      match follow, t.linkTarget? (done ++ [name]) with
      | some follow, some target => follow (linkBase target done) (target.parts ++ rest)
      | _, _ =>
        match t.enter (done ++ [name]) rest.isEmpty with
        | .ok _ => locateWith t follow (done ++ [name]) rest
        | .error kind => .error kind

/-- Where a path leads if every directory on the way exists. -/
def locateFrom (t : FileTree) : Nat → List String → List String →
    Except FileErrorKind (List String)
  | 0 => locateWith t none
  | hops + 1 => locateWith t (some (locateFrom t hops))

/-- Where a path leads: the components of the file or directory, which may not exist yet. -/
def locate (t : FileTree) (p : Path) : Except FileErrorKind (List String) :=
  t.locateFrom maxHops (t.origin p) p.parts

/-- What a path leads to. -/
def target? (t : FileTree) (p : Path) : Option FileNode :=
  match t.locate p with
  | .ok parts => t.node? parts
  | .error _ => none

/-- Whether a path leads to a file. -/
def isFile (t : FileTree) (p : Path) : Bool :=
  match t.target? p with
  | some (.file ..) => true
  | _ => false

/-- Whether a path leads to a directory. -/
def isDirectory (t : FileTree) (p : Path) : Bool :=
  match t.target? p with
  | some .directory => true
  | _ => false

/-- Whether a path leads to anything. -/
def pathExists (t : FileTree) (p : Path) : Bool := (t.target? p).isSome

/-- The names right below a directory. -/
def namesBelow (t : FileTree) (parts : List String) : List String :=
  t.nodes.keys.filterMap fun k =>
    if k.length = parts.length + 1 && parts.isPrefixOf k then k.getLast? else none

/-- The bytes of a file. -/
def readBytes (t : FileTree) (p : Path) : Except FileError ByteArray :=
  match t.locate p with
  | .error kind => .error ⟨kind, p.text, none⟩
  | .ok parts =>
    match t.node? parts with
    | some (.file content _) => .ok content
    | some .directory => .error ⟨.isADirectory, p.text, none⟩
    | _ => .error ⟨.notFound, p.text, none⟩

/-- The text that bytes encode, with line feeds as its only line breaks; `none` if the bytes are
no text. -/
def decodeText (content : ByteArray) : Option String := (String.fromUTF8? content).map Text.unified

/-- The text that a file's bytes encode. -/
def decode (content : ByteArray) : Outcome String :=
  match decodeText content with
  | some text => .ok text
  | none => .error (.undecodable (.ofBytes content))

/-- A written text is read back but for its line breaks. -/
theorem decode_toUTF8 (s : String) : decode s.toUTF8 = .ok (Text.unified s) := by
  have hvalid : String.fromUTF8? s.toUTF8 = some s := by
    unfold String.fromUTF8?
    rw [String.toUTF8_eq_toByteArray, dif_pos s.isValidUTF8]
    rfl
  unfold decode decodeText
  rw [hvalid]
  rfl

/-- The size of a file in bytes. -/
def size? (t : FileTree) (p : Path) : Option Nat :=
  match t.target? p with
  | some (.file content _) => some content.size
  | some .directory => some 0
  | _ => none

/-- The syntax tree of a source file. -/
def syntaxTree? (t : FileTree) (p : Path) : Option SyntaxTree :=
  match t.target? p with
  | some (.file _ tree) => tree
  | _ => none

/-- Puts a node at a path that is given by its components. -/
def put (t : FileTree) (parts : List String) (n : FileNode) : FileTree :=
  { t with nodes := t.nodes.insert parts n }

/-- The root is a directory, so what is replaced is something else. -/
theorem node?_put {t : FileTree} {parts : List String} (hparts : parts ≠ []) (n : FileNode)
    (q : List String) : (t.put parts n).node? q = if q = parts then some n else t.node? q := by
  unfold node? put
  by_cases hq : q = []
  · rw [hq, if_neg (Ne.symm hparts)]
    rfl
  · have hheld : ¬q.isEmpty = true := by simpa using hq
    rw [if_neg hheld, if_neg hheld, Dict.get?_insert]

theorem ne_nil_of_file {t : FileTree} {parts : List String} {content : ByteArray}
    {tree : Option SyntaxTree} (h : t.node? parts = some (.file content tree)) : parts ≠ [] := by
  rintro rfl
  cases h

/-- Creates the directories on the way to a path, `done` being there already. -/
def makeBelow (t : FileTree) (done : List String) : List String → Except FileErrorKind FileTree
  | [] => .ok t
  | name :: rest =>
    match t.node? (done ++ [name]) with
    | some .directory => t.makeBelow (done ++ [name]) rest
    | some _ => .error (if rest.isEmpty then .exists else .notADirectory)
    | none => (t.put (done ++ [name]) .directory).makeBelow (done ++ [name]) rest

/-- Creates a directory and those above it that are missing. -/
def makeDirectories (t : FileTree) (p : Path) : Except FileError FileTree :=
  match t.makeBelow [] (t.resolve p).parts with
  | .ok t => .ok t
  | .error kind => .error ⟨kind, p.text, none⟩

/-- Writes a file; its directory must exist. -/
def writeFile (t : FileTree) (p : Path) (content : ByteArray) (tree : Option SyntaxTree) :
    Except FileError FileTree :=
  match t.locate p with
  | .error kind => .error ⟨kind, p.text, none⟩
  | .ok parts =>
    match t.node? parts with
    | some .directory => .error ⟨.isADirectory, p.text, none⟩
    | _ => .ok (t.put parts (.file content tree))

/-- Writes a text. -/
def writeText (t : FileTree) (p : Path) (s : String) : Except FileError FileTree :=
  t.writeFile p s.toUTF8 none

/-- Removes what stands at a path and below it. -/
def removeTree (t : FileTree) (parts : List String) : FileTree :=
  { t with nodes := t.nodes.filter fun k _ => !parts.isPrefixOf k }

/-- Nothing stands any more where a tree has been removed; the root stays. -/
theorem node?_removeTree (t : FileTree) {parts q : List String} (hq : q ≠ []) :
    (t.removeTree parts).node? q = if parts.isPrefixOf q then none else t.node? q := by
  have hheld : ¬q.isEmpty = true := by simpa using hq
  unfold node? removeTree
  rw [if_neg hheld, if_neg hheld, Dict.get?_filterKeys]
  cases parts.isPrefixOf q <;> rfl

/-- Moves a file over another one. Links are moved and replaced like files. -/
def rename (t : FileTree) (source target : Path) : Except FileError FileTree :=
  let refuse (kind : FileErrorKind) : Except FileError FileTree :=
    .error ⟨kind, source.text, some target.text⟩
  match t.locate source.parent, t.locate target.parent with
  | .ok before, .ok after =>
    match t.node? (before ++ [source.name]) with
    | some n =>
      if t.hasDirectory (after ++ [target.name]) && !t.hasDirectory (before ++ [source.name]) then
        refuse .isADirectory
      else .ok (((t.removeTree (before ++ [source.name])).removeTree (after ++ [target.name])).put
        (after ++ [target.name]) n)
    | none => refuse .notFound
  | .error kind, _ => refuse kind
  | _, .error kind => refuse kind

end FileTree

end CodeAtlas
