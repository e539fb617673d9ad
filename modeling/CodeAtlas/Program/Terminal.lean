import CodeAtlas.CommandLine.Run
import CodeAtlas.Dict
import CodeAtlas.Failure
import CodeAtlas.Text.Case
import CodeAtlas.Text.CharSet
import CodeAtlas.Text.Pieces

/-!
# The terminal

How the program is called and how its answers are shown; the commands depend on neither.

Arguments that begin with a dash set options, the others are words. A long option may carry its
value after an equals sign; short ones may stand together behind one dash, and the rest of such
an argument is the value of the first that takes one. Two dashes end the options. A command line
names a command, perhaps after options that concern all of them. Options that are not given may be
taken from variables of the environment. What breaks these rules is misuse, and so is a command
line that asks nothing.

Texts for the terminal may hold tags in brackets that style what follows. Only the plain text is
shown: tags vanish, a backslash before a tag takes away its meaning, and brackets that hold no tag
stay. A tag that begins with a slash ends an earlier one; one that ends none is refused.
-/

namespace CodeAtlas.CommandLine

/-- An option of a command. -/
structure OptionRule where
  /-- The long name without its dashes. -/
  name : String
  short : Option Char
  takesValue : Bool
  deriving Repr, DecidableEq, Inhabited

/-- The settings of options in the order in which they were given, and the words. A set flag has
an empty value. -/
structure Arguments where
  settings : List (String × String)
  words : List String
  deriving Repr, DecidableEq, Inhabited

/-- What one argument with a dash says. -/
inductive OptionReading where
  | misuse
  | complete (settings : List (String × String))
  /-- The next argument is the value of an option. -/
  | needsValue (settings : List (String × String)) (name : String)
  deriving Repr, DecidableEq, Inhabited

namespace OptionReading

/-- The reading with one more flag before it. -/
def after (flag : String) : OptionReading → OptionReading
  | .misuse => .misuse
  | .complete settings => .complete ((flag, "") :: settings)
  | .needsValue settings name => .needsValue ((flag, "") :: settings) name

/-- Reads short options that stand together. -/
def ofShort (rules : List OptionRule) : List Char → OptionReading
  | [] => .complete []
  | c :: rest =>
    match rules.find? fun r => r.short = some c with
    | none => .misuse
    | some r =>
      if !r.takesValue then (ofShort rules rest).after r.name
      else if rest.isEmpty then .needsValue [] r.name
      else .complete [(r.name, String.ofList rest)]

/-- Reads a long option by its name and the value that it carries. -/
def ofLong (r : OptionRule) (value : Option String) : OptionReading :=
  match r.takesValue, value with
  | true, some v => .complete [(r.name, v)]
  | true, none => .needsValue [] r.name
  | false, some _ => .misuse
  | false, none => .complete [(r.name, "")]

/-- Reads an argument that begins with a dash. -/
def ofArgument (rules : List OptionRule) (argument : String) : OptionReading :=
  let (name, value) := match Text.splitFirst? argument "=" with
    | some (name, value) => (name, some value)
    | none => (argument, none)
  match rules.find? fun r => "--" ++ r.name = name with
  | some r => ofLong r value
  | none =>
    if Text.startsWith argument "--" then .misuse
    else ofShort rules (argument.toList.drop 1)

end OptionReading

namespace Arguments

/-- The arguments with settings put before them. -/
def withSettings (settings : List (String × String)) (a : Arguments) : Arguments :=
  { a with settings := settings ++ a.settings }

/-- The arguments with a word put before them. -/
def withWord (word : String) (a : Arguments) : Arguments := { a with words := word :: a.words }

/-- Whether an argument sets an option. -/
def isOption (argument : String) : Bool :=
  Text.startsWith argument "-" && argument.length > 1

/-- Reads arguments; `none` for misuse. Options may follow words only if `interspersed`. -/
def parse? (rules : List OptionRule) (interspersed : Bool) : List String → Option Arguments
  | [] => some ⟨[], []⟩
  | argument :: rest =>
    if argument = "--" then some ⟨[], rest⟩
    else if isOption argument then
      match OptionReading.ofArgument rules argument with
      | .misuse => none
      | .complete settings => (parse? rules interspersed rest).map (withSettings settings)
      | .needsValue settings name =>
        match rest with
        | [] => none
        | value :: rest =>
          (parse? rules interspersed rest).map (withSettings (settings ++ [(name, value)]))
    else if interspersed then (parse? rules interspersed rest).map (withWord argument)
    else some ⟨[], argument :: rest⟩

/-- The value of an option; the last one counts. -/
def value? (a : Arguments) (name : String) : Option String :=
  (a.settings.reverse.find? fun s => s.1 = name).map (·.2)

/-- Whether a flag is set. -/
def isSet (a : Arguments) (name : String) : Bool := (a.value? name).isSome

end Arguments

namespace Command

/-- The variable that says where graphs are kept. -/
def stateVariable : String := "DOMAINGRAPH_STATE_DIR"

/-- The variable that names an analyzer. -/
def analyzerVariable : String := "DOMAINGRAPH_ANALYZER_CMD"

/-- The variable that names an enricher. -/
def enricherVariable : String := "DOMAINGRAPH_ENRICHER_CMD"

/-- The options that concern all commands. -/
def commonRules : List OptionRule := [⟨"version", some 'v', false⟩, ⟨"verbose", none, false⟩]

/-- The option that says where the graph is kept. -/
def stateRule : OptionRule := ⟨"state-dir", none, true⟩

/-- The options that name programs. -/
def programRules : List OptionRule := [⟨"analyzer-cmd", none, true⟩, ⟨"enricher-cmd", none, true⟩]

/-- The value of an option, or else that of a variable which is not empty. -/
def given (environment : Dict String String) (a : Arguments) (option source : String) :
    Option String :=
  match a.value? option with
  | some v => some v
  | none => (environment.get? source).filter fun v => !v.isEmpty

/-- The place that a path and the options tell. -/
def placeOf (environment : Dict String String) (a : Arguments) (repository : String) : Place :=
  ⟨repository, given environment a "state-dir" stateVariable⟩

/-- The programs that the options tell. -/
def programsOf (environment : Dict String String) (a : Arguments) : Programs :=
  ⟨given environment a "analyzer-cmd" analyzerVariable,
    given environment a "enricher-cmd" enricherVariable⟩

/-- The path that the words give, the working directory without one; `none` for more words. -/
def pathOf? : List String → Option String
  | [] => some "."
  | [path] => some path
  | _ => none

/-- The options of the command with a name; `none` if there is no such command. -/
def rulesOf? (name : String) : Option (List OptionRule) :=
  match name with
  | "analyze" => some (stateRule :: ⟨"language", some 'l', true⟩ :: programRules)
  | "sync" => some (stateRule :: programRules)
  | "query" => some [stateRule, ⟨"json", none, false⟩]
  | "context" => some [stateRule, ⟨"trace", some 't', true⟩]
  | "status" => some [stateRule]
  | "clean" => some [stateRule, ⟨"force", some 'f', false⟩]
  | _ => none

/-- The command that a name and its arguments ask for; `none` for misuse. -/
def ofName? (environment : Dict String String) (name : String) (a : Arguments) :
    Option Command :=
  let place := placeOf environment a
  let programs := programsOf environment a
  match name, a.words with
  | "query", text :: words => do
    return .query text (place (← pathOf? words)) (a.isSet "json")
  | "query", [] => none
  | "analyze", words => do
    return .analyze (place (← pathOf? words)) (a.value? "language") programs
  | "sync", words => do return .sync (place (← pathOf? words)) programs
  | "context", words => do return .context (place (← pathOf? words)) (← a.value? "trace")
  | "status", words => do return .status (place (← pathOf? words))
  | "clean", words => do return .clean (place (← pathOf? words)) (a.isSet "force")
  | _, _ => none

/-- The command that a command line asks for; `none` for misuse. -/
def ofArguments? (environment : Dict String String) (arguments : List String) :
    Option Command := do
  let common ← Arguments.parse? commonRules false arguments
  if common.isSet "version" then return .version
  match common.words with
  | [] => none
  | name :: rest => ofName? environment name (← Arguments.parse? (← rulesOf? name) true rest)

end Command

/-! ## Markup -/

/-- A piece of a text with markup. -/
inductive MarkupPiece where
  | plain (cs : List Char)
  /-- A tag, by what stands between the brackets. -/
  | tag (content : List Char)
  deriving Repr, DecidableEq, Inhabited

namespace MarkupPiece

/-- Whether a tag may begin with a character. -/
def beginsTag (c : Char) : Bool :=
  ('a' ≤ c && c ≤ 'z') || c = '#' || c = '/' || c = '@'

/-- The content of a tag that begins after an open bracket. -/
def tagContent? (cs : List Char) : Option (List Char) :=
  match cs with
  | c :: _ =>
    if beginsTag c then
      match cs.dropWhile fun d => d ≠ '[' && d ≠ ']' with
      | ']' :: _ => some (cs.takeWhile fun d => d ≠ '[' && d ≠ ']')
      | _ => none
    else none
  | [] => none

/-- The pieces that backslashes and a tag make: every pair of backslashes is one, and a single
one before the tag makes the tag plain. -/
def escaped (backslashes : Nat) (content : List Char) : List MarkupPiece :=
  .plain (List.replicate (backslashes / 2) '\\') ::
    if backslashes % 2 = 1 then [.plain ('[' :: content ++ [']'])] else [.tag content]

/-- The pieces and the length of a tag at the start of a text, with backslashes before it. -/
def tagAt? (cs : List Char) : Option (List MarkupPiece × Nat) :=
  let backslashes := (cs.takeWhile (· = '\\')).length
  match cs.drop backslashes with
  | '[' :: rest =>
    (tagContent? rest).map fun content =>
      (escaped backslashes content, backslashes + content.length + 2)
  | _ => none

/-- The piece of a character that begins no tag. A backslash before a bracket vanishes. -/
def single (c : Char) (rest : List Char) : MarkupPiece :=
  if c = '\\' && rest.head? = some '[' then .plain [] else .plain [c]

/-- The pieces of a text of which the first `skipped` characters have been read. -/
def ofChars : Nat → List Char → List MarkupPiece
  | _, [] => []
  | skipped + 1, _ :: rest => ofChars skipped rest
  | 0, c :: rest =>
    match tagAt? (c :: rest) with
    | some (pieces, length) => pieces ++ ofChars (length - 1) rest
    | none => single c rest :: ofChars 0 rest

/-- The name of a tag: its content before an equals sign, without regard to case. -/
def tagName (content : List Char) : String :=
  Text.toLower (Text.trim (String.ofList (content.takeWhile (· ≠ '='))))

/-- The open tags, the latest first, after one has been ended; without a name the latest is. -/
def close (name : String) (tags : List String) : Outcome (List String) :=
  if name.isEmpty then
    match tags with
    | [] => .error .malformedMarkup
    | _ :: rest => .ok rest
  else if tags.contains name then .ok (tags.erase name)
  else .error .malformedMarkup

/-- The plain text of pieces, given the tags that are open. -/
def text (tags : List String) : List MarkupPiece → Outcome (List Char)
  | [] => .ok []
  | .plain cs :: rest => do return cs ++ (← text tags rest)
  | .tag ('/' :: name) :: rest => do text (← close (tagName name) tags) rest
  | .tag content :: rest => text (tagName content :: tags) rest

end MarkupPiece

/-- Whether a console leaves out a character. -/
def isControl (c : Char) : Bool :=
  c.toNat = 7 || c.toNat = 8 || c.toNat = 11 || c.toNat = 12 || c.toNat = 13

/-- A line with its tabs filled up to the next multiple of eight columns. -/
def expandTabs : Nat → List Char → List Char
  | _, [] => []
  | column, c :: rest =>
    if c = '\t' then List.replicate (8 - column % 8) ' ' ++ expandTabs (column / 8 * 8 + 8) rest
    else if c = '\n' then c :: expandTabs 0 rest
    else c :: expandTabs (column + 1) rest

/-- What a console shows of a text with markup. -/
def plainText (s : String) : Outcome String := do
  let cs ← MarkupPiece.text [] (MarkupPiece.ofChars 0 s.toList)
  return String.ofList (expandTabs 0 (cs.filter fun c => !isControl c))

end CodeAtlas.CommandLine
