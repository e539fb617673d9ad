import CodeAtlas.Text.Order
import CodeAtlas.Text.Pieces

/-!
# Paths

A path is a list of components, absolute or not. Reading a path drops empty components and
single dots and keeps double dots. A name's suffix begins at its last dot, unless the dot is
the first or the last character of the name.
-/

namespace CodeAtlas

/-- A path in the file tree. -/
structure Path where
  absolute : Bool
  parts : List String
  deriving Repr, DecidableEq, Inhabited

namespace Path

/-- The path that a text writes. -/
def ofText (s : String) : Path :=
  ⟨Text.startsWith s "/", (Text.split s '/').filter fun p => p ≠ "" && p ≠ "."⟩

/-- A relative path. -/
def relative (parts : List String) : Path := ⟨false, parts⟩

/-- The components joined by slashes. -/
def joined (parts : List String) : String := Text.join "/" parts

/-- The written path; the empty relative path is a dot. -/
def text (p : Path) : String :=
  if p.absolute then "/" ++ joined p.parts
  else if p.parts.isEmpty then "." else joined p.parts

/-- The path `q`, read from the directory `p`. -/
def append (p q : Path) : Path :=
  if q.absolute then q else ⟨p.absolute, p.parts ++ q.parts⟩

/-- A name below a directory. -/
def child (p : Path) (name : String) : Path := ⟨p.absolute, p.parts ++ [name]⟩

/-- The last component. -/
def name (p : Path) : String := p.parts.getLast?.getD ""

/-- The path without its last component. -/
def parent (p : Path) : Path := ⟨p.absolute, p.parts.dropLast⟩

/-- A name split before its suffix. -/
def splitName (name : String) : String × String :=
  match Text.splitLast? name "." with
  | some (stem, ending) => if stem = "" || ending = "" then (name, "") else (stem, "." ++ ending)
  | none => (name, "")

/-- The suffix of a name, with its dot. -/
def suffixOf (name : String) : String := (splitName name).2

/-- A name without its suffix. -/
def stemOf (name : String) : String := (splitName name).1

/-- The suffix of the last component. -/
def suffix (p : Path) : String := suffixOf p.name

/-- The last component without its suffix. -/
def stem (p : Path) : String := stemOf p.name

/-- The components of a path below a directory. -/
def relativeTo? (p dir : Path) : Option (List String) :=
  if p.absolute = dir.absolute && dir.parts.isPrefixOf p.parts then
    some (p.parts.drop dir.parts.length)
  else none

/-- Whether one list of components comes before another: component by component. -/
def partsBefore : List String → List String → Bool
  | [], _ => true
  | _ :: _, [] => false
  | a :: as, b :: bs => if a = b then partsBefore as bs else decide (a < b)

/-- Paths in ascending order, compared component by component. -/
def sorted (ps : List Path) : List Path := sortBy (fun a b => partsBefore a.parts b.parts) ps

/-- Stem and suffix make up the name. -/
theorem stemOf_append_suffixOf_of_noDot {name : String} (h : Text.splitLast? name "." = none) :
    stemOf name = name ∧ suffixOf name = "" := by
  simp [stemOf, suffixOf, splitName, h]

end Path

end CodeAtlas
