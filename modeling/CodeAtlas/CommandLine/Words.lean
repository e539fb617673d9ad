import CodeAtlas.Failure

/-!
# Words of a command

A command is split into words at blanks. Quotes keep blanks inside a word; a backslash keeps the
character after it. Inside double quotes a backslash is kept too, unless a double quote or a
backslash follows. Pieces that touch make up one word, which may be empty if it has quotes.
-/

namespace CodeAtlas.CommandLine

/-- Where the reader of words stands. -/
inductive WordPlace where
  | between
  | inWord
  /-- Inside quotes. -/
  | inQuotes (mark : Char)
  /-- After a backslash outside quotes. -/
  | escape
  /-- After a backslash inside double quotes. -/
  | quotedEscape
  deriving Repr, DecidableEq, Inhabited

namespace WordPlace

/-- Whether a character separates words. -/
def isGap (c : Char) : Bool := c = ' ' || c = '\t' || c = '\r' || c = '\n'

/-- The place after a character outside quotes. -/
def enter (c : Char) : WordPlace :=
  if c = '\\' then .escape
  else if c = '\'' || c = '"' then .inQuotes c
  else .inWord

/-- What a character outside quotes adds to its word. -/
def own (c : Char) : List Char := if c = '\\' || c = '\'' || c = '"' then [] else [c]

end WordPlace

/-- A finished word, by its characters from the last to the first. -/
def finishedWord (word : List Char) : String := String.ofList word.reverse

/-- The words of a text from a place on. `word` is the word that was begun, from its last
character to its first. -/
def wordsFrom : WordPlace → List Char → List Char → Outcome (List String)
  | .between, _, [] => .ok []
  | .inWord, word, [] => .ok [finishedWord word]
  | .inQuotes _, _, [] => .error (.malformedCommand "No closing quotation")
  | .escape, _, [] => .error (.malformedCommand "No escaped character")
  | .quotedEscape, _, [] => .error (.malformedCommand "No escaped character")
  | .between, word, c :: rest =>
    if WordPlace.isGap c then wordsFrom .between word rest
    else wordsFrom (.enter c) (WordPlace.own c) rest
  | .inWord, word, c :: rest =>
    if WordPlace.isGap c then do return finishedWord word :: (← wordsFrom .between [] rest)
    else wordsFrom (.enter c) (WordPlace.own c ++ word) rest
  | .inQuotes mark, word, c :: rest =>
    if c = mark then wordsFrom .inWord word rest
    else if c = '\\' && mark = '"' then wordsFrom .quotedEscape word rest
    else wordsFrom (.inQuotes mark) (c :: word) rest
  | .escape, word, c :: rest => wordsFrom .inWord (c :: word) rest
  | .quotedEscape, word, c :: rest =>
    wordsFrom (.inQuotes '"') (if c = '\\' || c = '"' then c :: word else c :: '\\' :: word) rest

/-- The words of a command. -/
def words (command : String) : Outcome (List String) := wordsFrom .between [] command.toList

/-- The words of a command that may not be given; an empty one is none. -/
def wordsOf? : Option String → Outcome (List String)
  | none => .ok []
  | some command => words command

/-- A text without gaps, quotes and backslashes is taken into a word as it is. -/
theorem wordsFrom_inWord_plain (word cs : List Char)
    (h : ∀ c ∈ cs, WordPlace.isGap c = false ∧ c ≠ '\\' ∧ c ≠ '\'' ∧ c ≠ '"') :
    wordsFrom .inWord word cs = .ok [finishedWord (cs.reverse ++ word)] := by
  induction cs generalizing word with
  | nil => rfl
  | cons c rest ih =>
    obtain ⟨hg, hb, hs, hd⟩ := h c (by simp)
    have hrest := ih (c :: word) fun d hd => h d (by simp [hd])
    simp [wordsFrom, hg, WordPlace.enter, WordPlace.own, hb, hs, hd, hrest]

end CodeAtlas.CommandLine
