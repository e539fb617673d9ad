import CodeAtlas.Platform
import CodeAtlas.Text.CharSet
import CodeAtlas.Text.Pieces

/-!
# Ignore patterns

Patterns in the style of ignore files. A pattern is read into pieces that match parts of a
path one after the other; a path matches if all of it is matched by all pieces. A pattern
without an inner slash matches at any depth, and what matches a directory matches all
below it.

This is the library of patterns that the program is run with. What is proved of discovery is
proved for any library.
-/

namespace CodeAtlas

/-- A part of a pattern. -/
inductive PatternPiece where
  /-- One given character. -/
  | char (c : Char)
  /-- One character that is no slash. -/
  | anyChar
  /-- Characters that are no slashes, perhaps none. -/
  | anyChars
  /-- Characters that are no slashes, at least one. -/
  | someChars
  /-- One character inside, or outside, of some ranges. -/
  | oneOf (negated : Bool) (ranges : List (Char × Char))
  /-- Nothing, or whole directories with a slash at the end. -/
  | anyLead
  /-- Nothing, or whole components after a slash. -/
  | anyInner
  /-- The end of the path, or all that is below it. -/
  | hereOrBelow
  /-- All that is below, not the path itself. -/
  | below
  /-- Everything but what lies at the top. -/
  | belowTop
  deriving Repr, DecidableEq, Inhabited

/-- A pattern that ignores or, negated, includes again. -/
structure IgnorePattern where
  ignores : Bool
  pieces : List PatternPiece
  deriving Repr, DecidableEq, Inhabited

namespace PatternPiece

/-- The rests of a text after characters other than slashes. -/
def afterNonSlashes : List Char → List (List Char)
  | [] => [[]]
  | c :: rest => if c = '/' then [c :: rest] else (c :: rest) :: afterNonSlashes rest

/-- The rests of a text after any characters of its line, the first included. -/
def afterSome : List Char → List (List Char)
  | [] => []
  | c :: rest => if c = '\n' then [] else rest :: afterSome rest

/-- Whether a text goes on to its end within its line. -/
def endsInLine (cs : List Char) : Bool :=
  cs.all (· ≠ '\n') || (cs.getLast? = some '\n' && cs.dropLast.all (· ≠ '\n'))

/-- The rests of a text after what the piece matches. -/
def rests : PatternPiece → List Char → List (List Char)
  | .char c, d :: rest => if c = d then [rest] else []
  | .anyChar, d :: rest => if d = '/' then [] else [rest]
  | .anyChars, cs => afterNonSlashes cs
  | .someChars, d :: rest => if d = '/' then [] else afterNonSlashes rest
  | .oneOf negated ranges, d :: rest =>
    if (ranges.any fun r => r.1 ≤ d && d ≤ r.2) != negated then [rest] else []
  | .anyLead, cs =>
    cs :: (afterSome cs).filterMap fun r =>
      match r with
      | '/' :: rest => some rest
      | _ => none
  | .anyInner, cs =>
    match cs with
    | '/' :: rest => cs :: afterSome rest
    | _ => [cs]
  | .hereOrBelow, cs =>
    match cs with
    | [] | ['\n'] => [[]]
    | '/' :: rest => if endsInLine rest then [[]] else []
    | _ => []
  | .below, '/' :: rest => if endsInLine rest then [[]] else []
  | .belowTop, d :: rest => if d ≠ '\n' && rest.contains '/' && endsInLine rest then [[]] else []
  | _, [] => []
  | .below, _ :: _ => []

/-- Whether the pieces match the whole text. -/
def matchAll : List PatternPiece → List Char → Bool
  | [], cs => cs.isEmpty
  | p :: ps, cs => (p.rests cs).any (matchAll ps)

end PatternPiece

namespace IgnorePattern

/-- The ranges inside brackets; a backward range has no meaning. -/
def rangesOf : List Char → Outcome (List (Char × Char))
  | a :: '-' :: b :: rest =>
    if b < a then .error .backwardRange
    else do return (a, b) :: (← rangesOf rest)
  | c :: rest => do return (c, c) :: (← rangesOf rest)
  | [] => .ok []

/-- The content of brackets and what follows them. A closing bracket right at the start is
part of the content; `none` if the brackets do not close. -/
def splitBrackets (cs : List Char) : Option (List Char × List Char) :=
  let (first, rest) := match cs with
    | ']' :: rest => ([']'], rest)
    | _ => ([], cs)
  match rest.dropWhile (· ≠ ']') with
  | ']' :: after => some (first ++ rest.takeWhile (· ≠ ']'), after)
  | _ => none

/-- A mark of negation at the start of brackets, and what follows it. -/
def splitNegation : List Char → Bool × List Char
  | '!' :: rest => (true, rest)
  | '^' :: rest => (true, rest)
  | cs => (false, cs)

/-- The pieces of one component of a pattern. The count bounds the characters. -/
def segmentWithin : Nat → List Char → Outcome (List PatternPiece)
  | _, [] => .ok []
  | 0, _ => .ok []
  | _ + 1, ['\\'] => .error (.malformedPattern "")
  | bound + 1, '\\' :: c :: rest => do return .char c :: (← segmentWithin bound rest)
  | bound + 1, '*' :: rest => do return .anyChars :: (← segmentWithin bound rest)
  | bound + 1, '?' :: rest => do return .anyChar :: (← segmentWithin bound rest)
  | bound + 1, '[' :: rest =>
    let (negated, inner) := splitNegation rest
    match splitBrackets inner with
    | some (content, after) => do
      let ranges ← rangesOf content
      return .oneOf negated ranges :: (← segmentWithin bound after)
    | none => do return .char '[' :: (← segmentWithin bound rest)
  | bound + 1, c :: rest => do return .char c :: (← segmentWithin bound rest)

/-- The pieces of one component of a pattern. -/
def segment (cs : List Char) : Outcome (List PatternPiece) := segmentWithin cs.length cs

/-- A component that stands for any number of components. -/
def anyDepth : List Char := ['*', '*']

/-- Components without neighbours that both stand for any number of components. -/
def mergeAnyDepth : List (List Char) → List (List Char)
  | a :: b :: rest =>
    if a = anyDepth && b = anyDepth then mergeAnyDepth (b :: rest)
    else a :: mergeAnyDepth (b :: rest)
  | cs => cs

/-- The components of a pattern relative to the top: a leading slash is dropped, and a single
component may stand at any depth. -/
def anchor : List (List Char) → List (List Char)
  | [] :: rest => rest
  | [a] => if a = anyDepth then [a] else [anyDepth, a]
  | [a, []] => if a = anyDepth then [a, []] else [anyDepth, a, []]
  | cs => cs

/-- The components with an empty last one read as any number of components. -/
def closeDirectory (cs : List (List Char)) : List (List Char) :=
  if cs.length > 1 && cs.getLast? = some [] then cs.dropLast ++ [anyDepth] else cs

/-- The pieces of the components. `first` holds for the first one; `slash` tells whether a
slash has to come before the next component. -/
def piecesOf (first slash : Bool) : List (List Char) → Outcome (List PatternPiece)
  | [] => .ok []
  | [c] =>
    if c = anyDepth then .ok (if first then [.someChars, .hereOrBelow] else [.below])
    else do
      let own ← if c = ['*'] then .ok [.someChars] else segment c
      return (if slash then [PatternPiece.char '/'] else []) ++ own ++ [.hereOrBelow]
  | c :: rest =>
    if c = anyDepth then
      if first then do return .anyLead :: (← piecesOf false false rest)
      else do return .anyInner :: (← piecesOf false true rest)
    else do
      let own ← if c = ['*'] then .ok [.someChars] else segment c
      return (if slash then [PatternPiece.char '/'] else []) ++ own ++ (← piecesOf false true rest)

/-- The pieces of a pattern without its mark of negation. -/
def piecesOfPattern (cs : List Char) : Outcome (List PatternPiece) :=
  let segments := mergeAnyDepth (Text.cutAt '/' cs)
  if segments = [anyDepth, []] then .ok [.belowTop]
  else
    match anchor segments with
    | [] => .error (.malformedPattern "")
    | cs => piecesOf true false (closeDirectory cs)

/-- A line without white space around it; white space after a backslash at the end stays. -/
def trimLine (cs : List Char) : List Char :=
  if cs.reverse.take 2 = [' ', '\\'] then Text.dropBlankStart cs else Text.trimChars cs

/-- The pieces of the pattern that a line holds. A pattern without meaning is named by its
line. -/
def piecesOfLine (line : String) (cs : List Char) : Outcome (List PatternPiece) :=
  match piecesOfPattern cs with
  | .error (.malformedPattern _) => .error (.malformedPattern line)
  | o => o

/-- The pattern of a line; none for an empty line, a comment or a lone slash. -/
def ofLine? (line : String) : Outcome (Option IgnorePattern) :=
  match trimLine line.toList with
  | [] => .ok none
  | '#' :: _ => .ok none
  | ['/'] => .ok none
  | '!' :: rest => do return some ⟨false, ← piecesOfLine line rest⟩
  | cs => do return some ⟨true, ← piecesOfLine line cs⟩

/-- The patterns of lines. -/
def ofLines (lines : List String) : Outcome (List IgnorePattern) := do
  return (← lines.mapM ofLine?).filterMap id

/-- Whether a pattern matches a path. -/
def covers (p : IgnorePattern) (path : List Char) : Bool := PatternPiece.matchAll p.pieces path

/-- Whether patterns ignore a path: the last one that matches decides. -/
def ignored (ps : List IgnorePattern) (path : List Char) : Bool :=
  match ps.reverse.find? fun p => p.covers path with
  | some p => p.ignores
  | none => false

/-- A path is matched without the slash of the root. -/
def withoutRoot : List Char → List Char
  | '/' :: cs => cs
  | cs => cs

/-- The paths that the patterns of lines ignore. -/
def compile (lines : List String) : Outcome (String → Bool) := do
  let ps ← ofLines lines
  return fun path => ignored ps (withoutRoot path.toList)

end IgnorePattern

/-- The platform that the program is run on. -/
def Platform.standard : Platform := ⟨IgnorePattern.compile, .unlimited⟩

end CodeAtlas
