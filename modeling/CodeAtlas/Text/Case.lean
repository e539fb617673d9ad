import CodeAtlas.Text.CaseTable

/-!
# Letter case

Full case mappings: a character may map to several. A capital sigma becomes a final sigma
where a cased letter stands before it and none after it, passing over the characters that
case ignores. Two texts are the same ignoring case when their lower-case forms are equal.
-/

namespace CodeAtlas.Text

/-- A character moved by the first run that covers it. -/
def shiftCase (runs : List CaseRun) (c : Char) : Char :=
  match runs.find? (·.covers c.toNat) with
  | some r => Char.ofNat (c.toNat + r.offset).toNat
  | none => c

/-- Whether the first character that case does not ignore is cased. -/
def meetsCased : List Char → Bool
  | [] => false
  | c :: rest => if caseIgnorableSet.contains c then meetsCased rest else casedSet.contains c

/-- The lower-case form of one character; `before` holds what precedes it, nearest first. -/
def lowerChar (before : List Char) (c : Char) (after : List Char) : List Char :=
  if c.toNat < 128 then [c.toLower]
  else if c = 'Σ' then [if meetsCased before && !meetsCased after then 'ς' else 'σ']
  else if c = 'İ' then ['i', Char.ofNat 0x307]
  else [shiftCase lowerRuns c]

/-- The lower-case form of the characters that follow `before`. -/
def lowerFrom (before : List Char) : List Char → List Char
  | [] => []
  | c :: rest => lowerChar before c rest ++ lowerFrom (c :: before) rest

/-- The upper-case form of one character. -/
def upperChar (c : Char) : List Char :=
  if c.toNat < 128 then [c.toUpper]
  else match upperExpansions.find? (·.1 == c.toNat) with
    | some (_, parts) => parts.map Char.ofNat
    | none => [shiftCase upperRuns c]

/-- The text in lower case. -/
def toLower (s : String) : String := String.ofList (lowerFrom [] s.toList)

/-- The text in upper case. -/
def toUpper (s : String) : String := String.ofList (s.toList.flatMap upperChar)

/-- Whether two texts agree when case is ignored. -/
def sameIgnoringCase (a b : String) : Bool := toLower a == toLower b

/-- Agreement that ignores case is symmetric. -/
theorem sameIgnoringCase_comm (a b : String) : sameIgnoringCase a b = sameIgnoringCase b a := by
  simp only [sameIgnoringCase]
  exact Bool.beq_comm

end CodeAtlas.Text
