import CodeAtlas.Text.CharSet
import CodeAtlas.Text.Case
import CodeAtlas.Text.Pieces
import CodeAtlas.Failure

/-!
# Queries

A query is a project name and segments between colons. A bare segment navigates, a plus
sign includes details, a question mark checks for a method. White space around segments and
empty segments do not count. The grammar is checked in full when a query is read; each
breach has its own wording.
-/

namespace CodeAtlas.Query

/-- What a segment does. -/
inductive Role where
  | navigate
  | include
  | check
  deriving Repr, DecidableEq, Inhabited

/-- The written name of a role. -/
def Role.name : Role → String
  | .navigate => "navigate"
  | .include => "include"
  | .check => "check"

/-- A segment of a query: its role and its word. -/
structure Token where
  role : Role
  word : String
  deriving Repr, DecidableEq, Inhabited

/-- The written segment. -/
def Token.text (t : Token) : String :=
  match t.role with
  | .navigate => t.word
  | .include => "+" ++ t.word
  | .check => "?" ++ t.word

/-- Breaches of the query grammar. -/
inductive Fault where
  /-- There is no query. -/
  | noQuery
  /-- The query has no colon. -/
  | noColon (query : String)
  /-- The project name is blank. -/
  | noProject
  /-- A modifier has no word. -/
  | noWord (role : Role)
  /-- No segment follows the project. -/
  | noTarget
  /-- The first segment is a modifier. -/
  | leadingModifier (token : Token)
  /-- The second navigation of a class is not one of the known words. -/
  | unknownNavigation (word : String)
  /-- A method is asked for without its name. -/
  | noMethodName (project target : String)
  deriving Repr, DecidableEq

/-- The words that list parts of a whole project. -/
def keywords : List String := ["endpoints", "classes", "entrypoints"]

/-- The words that navigate from a class, in alphabetical order. -/
def subNavigations : List String := ["dependencies", "dependents", "method", "methods"]

/-- How a modifier is called in a message. -/
def Role.title : Role → String
  | .check => "Check (?)"
  | _ => "Include modifier (+)"

/-- The wording of a breach. -/
def Fault.message : Fault → String
  | .noQuery => "Query is required"
  | .noColon query => "Query must have at least project:target. Got: " ++ query
  | .noProject => "Project name is required"
  | .noWord role => role.title ++ " requires a value"
  | .noTarget => "Query must have at least one target after project"
  | .leadingModifier token =>
    "First segment after project must be a navigation target, not a modifier. Got: " ++ token.text
  | .unknownNavigation word =>
    "Unknown navigation: " ++ word ++ ". Valid navigations: " ++ Text.join ", " subNavigations
  | .noMethodName project target =>
    "Method name required. Example: " ++ project ++ ":" ++ target ++ ":method:name"

/-- A breach as a failure. -/
def Fault.failure (f : Fault) : Failure := .reported .invalidQuery f.message

end CodeAtlas.Query

namespace CodeAtlas

/-- A query: its trimmed text, the project it names and its tokens. -/
structure Query where
  raw : String
  project : String
  tokens : List Query.Token
  deriving Repr, DecidableEq, Inhabited

namespace Query

/-- The words of the tokens with a role, in order. -/
def wordsOf (role : Role) (tokens : List Token) : List String :=
  (tokens.filter fun t => t.role = role).map (·.word)

/-- The navigation words. -/
def navigations (q : Query) : List String := wordsOf .navigate q.tokens

/-- The words of included details. -/
def includes (q : Query) : List String := wordsOf .include q.tokens

/-- The words to check for. -/
def checks (q : Query) : List String := wordsOf .check q.tokens

/-- Whether a detail is included, ignoring case. -/
def hasInclude (q : Query) (word : String) : Bool :=
  q.includes.any fun w => Text.sameIgnoringCase w word

/-- The first word to check for. -/
def checkWord? (q : Query) : Option String := q.checks.head?

/-- Whether a word lists parts of a whole project, ignoring case. -/
def isKeyword (word : String) : Bool := keywords.contains (Text.toLower word)

/-- The token of a segment without white space around it; nothing for an empty one. -/
def tokenOfSegment (segment : List Char) : Except Fault (Option Token) :=
  match segment with
  | [] => .ok none
  | c :: rest =>
    if c = '+' || c = '?' then
      let role : Role := if c = '+' then .include else .check
      let word := Text.trimChars rest
      if word.isEmpty then .error (.noWord role) else .ok (some ⟨role, String.ofList word⟩)
    else .ok (some ⟨.navigate, String.ofList segment⟩)

/-- The tokens of the segments after the project. -/
def tokensOfSegments : List (List Char) → Except Fault (List Token)
  | [] => .ok []
  | segment :: rest => do
    let token ← tokenOfSegment (Text.trimChars segment)
    let tokens ← tokensOfSegments rest
    return token.toList ++ tokens

/-- The rule for navigation words: a keyword, a class alone, or a class and a known word
that is followed by a name if it asks for one method. -/
def checkNavigation (project : String) : List String → Except Fault Unit
  | target :: sub :: rest =>
    if isKeyword target then .ok ()
    else if !subNavigations.contains (Text.toLower sub) then .error (.unknownNavigation sub)
    else if Text.toLower sub = "method" && rest.isEmpty then .error (.noMethodName project target)
    else .ok ()
  | _ => .ok ()

/-- Reads a query and checks its grammar. -/
def parse (s : String) : Except Fault Query := do
  let trimmed := Text.trimChars s.toList
  if trimmed.isEmpty then throw .noQuery
  match Text.cutAt ':' trimmed with
  | first :: second :: rest =>
    let project := String.ofList (Text.trimChars first)
    if project.isEmpty then throw .noProject
    let tokens ← tokensOfSegments (second :: rest)
    match tokens with
    | [] => throw .noTarget
    | t :: _ =>
      if t.role ≠ .navigate then throw (.leadingModifier t)
      checkNavigation project (wordsOf .navigate tokens)
      return ⟨String.ofList trimmed, project, tokens⟩
  | _ => throw (.noColon (String.ofList trimmed))

/-- Reads a query that may be absent. -/
def parse? : Option String → Except Fault Query
  | some s => parse s
  | none => .error .noQuery

/-- The written query: project and segments between colons. -/
def text (q : Query) : String := Text.join ":" (q.project :: q.tokens.map Token.text)

end Query

end CodeAtlas
