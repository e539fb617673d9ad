import CodeAtlas.FileTree
import CodeAtlas.Graph.Method

/-!
# Source files

A source file is its text, as bytes with line feeds as the only line breaks, with its syntax
tree. Nodes of the tree are turned into texts and line numbers through the bytes they cover.
-/

namespace CodeAtlas

/-- A source file that has been read. -/
structure SourceFile where
  path : Path
  content : ByteArray
  tree : SyntaxTree
  deriving Inhabited

namespace SourceFile

/-- The text between two bytes. -/
def slice (f : SourceFile) (start stop : Nat) : String :=
  (String.fromUTF8? (f.content.extract start stop)).getD ""

/-- The text of a node. -/
def text (f : SourceFile) (t : SyntaxTree) : String := f.slice t.start t.stop

/-- The text of a node, empty for none. -/
def text? (f : SourceFile) (t : Option SyntaxTree) : String := (t.map f.text).getD ""

/-- The text of the subtree that fills a field, empty for none. -/
def fieldText (f : SourceFile) (t : SyntaxTree) (field : String) : String :=
  f.text? (t.child? field)

/-- The number of line feeds among the first `stop` bytes. -/
def lineFeedsBefore (f : SourceFile) (stop : Nat) : Nat :=
  (f.content.extract 0 stop).foldl (fun n b => if b = 10 then n + 1 else n) 0

/-- The line on which a node begins, counted from one. -/
def line (f : SourceFile) (t : SyntaxTree) : Int := f.lineFeedsBefore t.start + 1

/-- Reads a source file; bytes that are no text, and a file without a tree, cannot be read. -/
def read (t : FileTree) (p : Path) : Outcome SourceFile :=
  match t.readBytes p with
  | .error _ => .error (.unreadableSource p.text)
  | .ok content =>
    match FileTree.decodeText content, t.syntaxTree? p with
    | some text, some tree => .ok ⟨p, text.toUTF8, tree⟩
    | _, _ => .error (.unreadableSource p.text)

end SourceFile

/-- A text without the quotes of one sort that surround it. -/
def unquoted (s : String) : String :=
  let cs := Text.trimChars s.toList
  match cs, cs.getLast? with
  | c :: _ :: _, some d =>
    if c = d && (c = '"' || c = '\'' || c = '\x60') then String.ofList ((cs.drop 1).dropLast)
    else String.ofList cs
  | _, _ => String.ofList cs

/-- The identifier of a file below a source root: its components without the suffix of the last
one, joined by dots. A file outside of the root has its bare stem. -/
def fileIdentifier (t : FileTree) (file root : Path) : String :=
  match (t.resolve file).relativeTo? (t.resolve root) with
  | none => file.stem
  | some parts =>
    let last := Text.beforeLast (parts.getLast?.getD "") "."
    Text.join "." (parts.dropLast ++ [last])

/-- The identifier of a file; the root itself has none. -/
def checkedIdentifier (t : FileTree) (file root : Path) : Outcome String :=
  if t.resolve file = t.resolve root then .error .outOfRange
  else .ok (fileIdentifier t file root)

/-- The parameters of one method whose types are known units. -/
abbrev MethodTargets := Dict String (List String)

/-- Adds the targets of one method's parameters; a method without targets adds nothing. A later
method of the same name replaces an earlier one. -/
def MethodTargets.record (r : MethodTargets) (name : String) (targets : List String) :
    MethodTargets :=
  if targets.isEmpty then r else r.insert name targets

end CodeAtlas
