import CodeAtlas.Json.Basic
import CodeAtlas.Text.CharSet
import CodeAtlas.Text.Lines
import CodeAtlas.Text.Pieces
import CodeAtlas.Text.WordSet

/-!
# Stack frames

Frames are read from the lines of a stack trace in four written forms, which are tried in
a fixed order on every line. Three forms are one line; in the fourth the place stands on the
line after. Each form splits its line at one place only, so no choice is left to the reader.
-/

namespace CodeAtlas

/-- A place in a stack trace. The class is empty where the trace names none. -/
structure Frame where
  className : String
  methodName : String
  lineNumber : Option Int
  filePath : Option String
  deriving Repr, DecidableEq, Inhabited

namespace Frame

/-- The written frame. -/
def toJson (f : Frame) : Json :=
  .object [("className", .string f.className), ("methodName", .string f.methodName),
    ("lineNumber", Json.ofOption .int f.lineNumber),
    ("filePath", Json.ofOption .string f.filePath)]

/-- What follows `word` at the start of a line. -/
def after? (word : String) (cs : List Char) : Option (List Char) :=
  if word.toList.isPrefixOf cs then some (cs.drop word.toList.length) else none

/-- What follows the word `at` and the white space around it. -/
def afterAt? (line : List Char) : Option (List Char) := do
  let rest ← after? "at" (Text.dropBlankStart line)
  match rest with
  | c :: _ => if Text.isBlank c then some (Text.dropBlankStart rest) else none
  | [] => none

/-- The longest digits at the start, with their number, and what follows. -/
def takeNumber? (cs : List Char) : Option (Int × List Char) :=
  let digits := cs.takeWhile Text.isDigit
  if digits.isEmpty then none else some (Text.natOfDigits digits, cs.dropWhile Text.isDigit)

/-- Characters of a class name in the form with a parenthesised file. -/
def isOwnerChar (c : Char) : Bool := Text.isWord c || c == '$' || c == '.'

/-- Characters of a method name in the form with a parenthesised file. -/
def isMemberChar (c : Char) : Bool := Text.isWord c || c == '$' || c == '<' || c == '>'

/-- What stands before and after the last occurrence of a character. -/
def cutLast? (sep : Char) (cs : List Char) : Option (List Char × List Char) :=
  let after := cs.reverse.takeWhile (· ≠ sep)
  if after.length = cs.length then none
  else some (cs.take (cs.length - after.length - 1), after.reverse)

/-- The place between parentheses: a file, which may be empty, and perhaps a line. -/
def parenthesisedPlace? (cs : List Char) : Option (List Char × Option Int) := do
  let file := cs.takeWhile fun c => c ≠ ':' && c ≠ ')'
  match cs.dropWhile fun c => c ≠ ':' && c ≠ ')' with
  | ')' :: _ => some (file, none)
  | ':' :: rest =>
    let (n, rest) ← takeNumber? rest
    match rest with
    | ')' :: _ => some (file, some n)
    | _ => none
  | _ => none

/-- Reads `at pkg.Cls.method(File:12)`; file and line may be missing. The class ends at its
first dollar sign. -/
def ofClassLine? (line : List Char) : Option Frame := do
  let rest ← afterAt? line
  let head := rest.takeWhile (· ≠ '(')
  match rest.dropWhile (· ≠ '(') with
  | [] => none
  | _ :: place =>
    let (owner, member) ← cutLast? '.' head
    if owner.isEmpty || member.isEmpty || !owner.all isOwnerChar || !member.all isMemberChar then
      none
    else
      let (file, n) ← parenthesisedPlace? place
      some ⟨String.ofList (owner.takeWhile (· ≠ '$')), String.ofList member, n,
        if file.isEmpty then none else some (String.ofList file)⟩

/-- Reads `File "x.py", line 3, in f`. -/
def ofFileLine? (line : List Char) : Option Frame := do
  let rest ← after? "File \"" (Text.dropBlankStart line)
  let path := rest.takeWhile (· ≠ '"')
  if path.isEmpty then none
  else
    let rest ← after? "\", line " (rest.dropWhile (· ≠ '"'))
    let (n, rest) ← takeNumber? rest
    let rest ← after? ", in " rest
    let name := rest.takeWhile fun c => !Text.isBlank c
    if name.isEmpty then none
    else some ⟨"", String.ofList name, some n, some (String.ofList path)⟩

/-- Characters of a path in the form with line and column. -/
def isPathChar (c : Char) : Bool := c ≠ '(' && c ≠ ')' && !Text.isBlank c

/-- A path, a line and a column between colons, a closing parenthesis perhaps, and nothing
more than white space. -/
def pathLineColumn? (cs : List Char) : Option (List Char × Int) := do
  let cs := Text.dropBlankEnd cs
  let cs := if cs.getLast? = some ')' then cs.dropLast else cs
  let (rest, column) ← cutLast? ':' cs
  let (path, line) ← cutLast? ':' rest
  if path.isEmpty || line.isEmpty || column.isEmpty || !path.all isPathChar ||
      !line.all Text.isDigit || !column.all Text.isDigit then none
  else some (path, Text.natOfDigits line)

/-- A name before an opening parenthesis, and what follows it. -/
def nameBeforePlace? (cs : List Char) : Option (List Char × List Char) :=
  let name := cs.takeWhile fun c => !Text.isBlank c
  let rest := cs.dropWhile fun c => !Text.isBlank c
  match rest, Text.dropBlankStart rest with
  | _ :: _, '(' :: place => if name.isEmpty then none else some (name, place)
  | _, _ => none

/-- A frame with a qualified name and a path with line and column. -/
def ofNameAndPlace? (name place : List Char) : Option Frame := do
  let (path, n) ← pathLineColumn? place
  let (owner, member) := (cutLast? '.' name).getD ([], name)
  some ⟨String.ofList owner, String.ofList member, some n, some (String.ofList path)⟩

/-- What follows the word `async` and white space. -/
def afterAsync? (cs : List Char) : Option (List Char) := do
  let rest ← after? "async" cs
  match rest with
  | c :: _ => if Text.isBlank c then some (Text.dropBlankStart rest) else none
  | [] => none

/-- Reads `at [async ]Owner.fn (path:line:col)` or `at path:line:col`. -/
def ofColumnLine? (line : List Char) : Option Frame := do
  let rest ← afterAt? line
  let awaited := do
    let (name, place) ← nameBeforePlace? (← afterAsync? rest)
    ofNameAndPlace? name place
  let called := do
    let (name, place) ← nameBeforePlace? rest
    ofNameAndPlace? name place
  awaited <|> called <|> ofNameAndPlace? [] rest

/-- Characters of a package path. -/
def isPackageChar (c : Char) : Bool := Text.isWord c || c == '.' || c == '/' || c == '-'

/-- A name and arguments between parentheses that end the line. -/
def callAtEnd? (cs : List Char) : Option (List Char) :=
  let name := cs.takeWhile Text.isWord
  match cs.dropWhile Text.isWord with
  | '(' :: arguments =>
    if !name.isEmpty && (Text.dropBlankEnd arguments).getLast? = some ')' then some name else none
  | _ => none

/-- A receiver type between parentheses and a dot, with what follows. -/
def receiver? (cs : List Char) : Option (List Char × List Char) :=
  match cs with
  | '(' :: rest =>
    let rest := match rest with
      | '*' :: rest => rest
      | _ => rest
    let name := rest.takeWhile Text.isWord
    match rest.dropWhile Text.isWord with
    | ')' :: '.' :: rest => if name.isEmpty then none else some (name, rest)
    | _ => none
  | _ => none

/-- What follows the dot after a package: a function, perhaps of a receiver. -/
def member? (cs : List Char) : Option (Option (List Char) × List Char) :=
  match receiver? cs with
  | some (type, rest) => (callAtEnd? rest).map fun name => (some type, name)
  | none => (callAtEnd? cs).map fun name => (none, name)

/-- A package path, the shortest after which a member follows. `package` is what has been
passed over, the last character first. -/
def packageAndMember? (package : List Char) :
    List Char → Option (List Char × Option (List Char) × List Char)
  | [] => none
  | c :: rest =>
    let here := if c = '.' && !package.isEmpty then member? rest else none
    match here with
    | some (type, name) => some (package.reverse, type, name)
    | none => if isPackageChar c then packageAndMember? (c :: package) rest else none

/-- A place on a line of its own: white space, a path that ends in `.go`, a colon and a line.
Of several such splits the longest path counts. -/
def indentedPlace? (line : List Char) : Option (List Char × Int) :=
  match line with
  | [] => none
  | c :: _ =>
    if !Text.isBlank c then none
    else
      let token := (Text.dropBlankStart line).takeWhile fun c => !Text.isBlank c
      let starts := ((List.range token.length).filter (0 < ·)).reverse
      starts.findSome? fun i => do
        let rest ← after? ".go:" (token.drop i)
        let (n, _) ← takeNumber? rest
        return (token.take i ++ ".go".toList, n)

/-- Reads `pkg.(*T).M(...)` or `pkg.F(...)` with the place on the next line. The class is the
receiver or the last segment of the package. -/
def ofCallLines? (line next : List Char) : Option Frame := do
  let (package, type, name) ← packageAndMember? [] line
  let (path, n) ← indentedPlace? next
  let segment := ((cutLast? '/' package).map (·.2)).getD package
  some ⟨String.ofList (type.getD segment), String.ofList name, some n, some (String.ofList path)⟩

/-- The frame of a line, with the line after it. -/
def ofLine? (line : List Char) (next : Option (List Char)) : Option Frame :=
  ofClassLine? line <|> ofFileLine? line <|> ofColumnLine? line <|>
    next.bind fun next => ofCallLines? line next

/-- The frames of a trace's lines. -/
def ofLines : List (List Char) → List Frame
  | [] => []
  | line :: rest => (ofLine? line rest.head?).toList ++ ofLines rest

/-- The frames of a stack trace, in the order in which they are written. -/
def parseTrace (text : String) : List Frame := ofLines (Text.linesOf text.toList)

end Frame

end CodeAtlas
