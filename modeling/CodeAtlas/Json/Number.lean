/-!
# Numbers of documents

Whole numbers are exact. A number with a fraction or an exponent is rounded to double precision,
to the nearest magnitude and, halfway between two, to the one with an even code. It is written
with as few digits as are read back as it.
-/

namespace CodeAtlas

-- Powers of numbers mean the same here whatever is imported.
attribute [local instance (high)] instPowNat

/-- The code of the magnitude beyond all finite ones, which count as infinite from there on. -/
def Double.infinite : Nat := 2047 * 2 ^ (52 : Nat)

/-- A number of double precision. The magnitudes are coded in ascending order, zero by zero. -/
inductive Double where
  | notANumber
  | signed (negative : Bool) (code : Fin (Double.infinite + 1))
  deriving Repr, DecidableEq, Inhabited

namespace Double

/-! ## Magnitudes -/

/-- By which power of two the magnitudes around a code are apart, in the least one's units. -/
def exponentOf (code : Nat) : Nat := code / 2 ^ (52 : Nat) - 1

/-- How many times the least magnitude goes into the one with a code. -/
def unitsOf (code : Nat) : Nat := (code - exponentOf code * 2 ^ (52 : Nat)) * 2 ^ exponentOf code

/-- The code of the largest magnitude that has at most so many units. -/
def codeBelow (units : Nat) : Nat :=
  (units.log2 - 52) * 2 ^ (52 : Nat) + units / 2 ^ (units.log2 - 52)

/-- The code of the magnitude that is nearest to a quotient of units. -/
def nearest (units parts : Nat) : Nat :=
  let code := codeBelow (units / parts)
  let excess := 2 * (units - parts * unitsOf code)
  let gap := parts * 2 ^ exponentOf code
  if gap < excess || (gap = excess && code % 2 = 1) then code + 1 else code

/-- The power of two that a magnitude is measured in: the least one is its inverse. -/
def precision : Nat := 1074

/-- The code for digits that are moved by a power of ten. Powers that are out of all proportion
to the number of digits are not computed. -/
def codeOfDecimal (digits : Nat) (count : Nat) (power : Int) : Nat :=
  if digits = 0 || power < -(count + 2000 : Int) then 0
  else if 400 < power then infinite
  else nearest (digits * 10 ^ power.toNat * 2 ^ precision) (10 ^ (-power).toNat)

/-- The number with a sign and a magnitude, which may be too large to be finite. -/
def ofCode (negative : Bool) (code : Nat) : Double :=
  .signed negative ⟨min code infinite, Nat.lt_succ_of_le (Nat.min_le_right ..)⟩

/-- The whole number that a number is, if it is one; both zeros are. -/
def whole? : Double → Option Int
  | .notANumber => none
  | .signed negative code =>
    if code = infinite || unitsOf code % 2 ^ precision != 0 then none
    else
      let n : Int := ↑(unitsOf code / 2 ^ precision)
      some (if negative then -n else n)

end Double

/-! ## Read numbers -/

namespace Json

/-- A number without its sign. -/
inductive Numeral where
  | whole (n : Nat)
  | decimal (code : Nat)
  deriving Repr, DecidableEq

/-- Whether there is a minus sign at the start, and the rest. -/
def takeSign : List Char → Bool × List Char
  | '-' :: rest => (true, rest)
  | cs => (false, cs)

/-- The whole part of a number: a zero alone, or digits that do not begin with one. -/
def takeWhole : List Char → Option (List Char × List Char)
  | '0' :: rest => some (['0'], rest)
  | c :: rest =>
    if c.isDigit then some (c :: rest.takeWhile (·.isDigit), rest.dropWhile (·.isDigit)) else none
  | [] => none

/-- The digits after a point, if both are there. -/
def takeFraction : List Char → List Char × List Char
  | '.' :: rest =>
    if (rest.takeWhile (·.isDigit)).isEmpty then ([], '.' :: rest)
    else (rest.takeWhile (·.isDigit), rest.dropWhile (·.isDigit))
  | cs => ([], cs)

/-- The number that digits write. -/
def natOfDigits (digits : List Char) : Nat :=
  digits.foldl (fun n c => 10 * n + (c.toNat - '0'.toNat)) 0

/-- The digits of an exponent after its mark and sign. -/
def takeExponentDigits (negative : Bool) (whole rest : List Char) : Option Int × List Char :=
  if (rest.takeWhile (·.isDigit)).isEmpty then (none, whole)
  else
    let n : Int := natOfDigits (rest.takeWhile (·.isDigit))
    (some (if negative then -n else n), rest.dropWhile (·.isDigit))

/-- An exponent, if its mark is followed by digits. -/
def takeExponent (cs : List Char) : Option Int × List Char :=
  match cs with
  | e :: '+' :: rest =>
    if e = 'e' || e = 'E' then takeExponentDigits false cs rest else (none, cs)
  | e :: '-' :: rest =>
    if e = 'e' || e = 'E' then takeExponentDigits true cs rest else (none, cs)
  | e :: rest => if e = 'e' || e = 'E' then takeExponentDigits false cs rest else (none, cs)
  | [] => (none, [])

/-- A number without a sign at the start of the text. -/
def scanNumeral (cs : List Char) : Option (Numeral × List Char) := do
  let (whole, rest) ← takeWhole cs
  let (fraction, rest) := takeFraction rest
  let (exponent, rest) := takeExponent rest
  if fraction.isEmpty && exponent.isNone then return (.whole (natOfDigits whole), rest)
  else
    let digits := whole ++ fraction
    let power := exponent.getD 0 - fraction.length
    return (.decimal (Double.codeOfDecimal (natOfDigits digits) digits.length power), rest)

end Json

/-! ## Written numbers -/

namespace Double

/-- Digits without the zeros at their end. -/
def trimZeros (digits : List Char) : List Char := (digits.reverse.dropWhile (· = '0')).reverse

/-- How digits are written whose point stands after so many of them: plainly if that is near
them, with an exponent of at least two digits otherwise. -/
def layout (digits : List Char) (point : Int) : List Char :=
  if -4 < point && point ≤ 16 then
    if point ≤ 0 then '0' :: '.' :: List.replicate (-point).toNat '0' ++ digits
    else if digits.length ≤ point.toNat then
      digits ++ List.replicate (point.toNat - digits.length) '0' ++ ['.', '0']
    else digits.take point.toNat ++ '.' :: digits.drop point.toNat
  else
    let exponent := Nat.toDigits 10 (point - 1).natAbs
    digits.take 1 ++ (if digits.length = 1 then [] else '.' :: digits.drop 1) ++
      'e' :: (if point ≤ 0 then '-' else '+') ::
      (if exponent.length = 1 then '0' :: exponent else exponent)

/-- Digits moved by a power of ten, as they are written. -/
def decimalText (digits : Nat) (power : Int) : List Char :=
  if digits = 0 then ['0', '.', '0']
  else
    let own := Nat.toDigits 10 digits
    layout (trimZeros own) (own.length + power)

/-- The power of ten of the first digit of a magnitude. -/
def leadingPower (units : Nat) : Int :=
  (Nat.toDigits 10 (units * 10 ^ (400 : Nat) / 2 ^ precision)).length - 401

/-- A magnitude written with so many digits: the nearer of the two neighbours first, or the one
with an even last digit if they are equally near. -/
def neighbours (units count : Nat) : List (List Char) :=
  let power := leadingPower units - count + 1
  let parts := 2 ^ precision * 10 ^ power.toNat
  let scaled := units * 10 ^ (-power).toNat
  let low := scaled / parts
  let excess := 2 * (scaled - low * parts)
  if excess < parts || (excess = parts && low % 2 = 0) then
    [decimalText low power, decimalText (low + 1) power]
  else [decimalText (low + 1) power, decimalText low power]

/-- A magnitude written to its last digit. -/
def exactText (units : Nat) : List Char :=
  Nat.toDigits 10 (units * 5 ^ precision) ++ ['e', '-', '1', '0', '7', '4']

/-- The written forms of a magnitude with ever more digits. -/
def writtenForms (units : Nat) : List (List Char) :=
  if units = 0 then [decimalText 0 0] else (List.range 17).flatMap fun n => neighbours units (n + 1)

/-- The shortest text that is read as a magnitude. Seventeen digits suffice for each. -/
def codeText (code : Nat) : List Char :=
  ((writtenForms (unitsOf code)).find? fun cs =>
    Json.scanNumeral cs = some (.decimal code, [])).getD (exactText (unitsOf code))

/-- A number with words for the infinities and for what is no number. -/
def textWith (infinity noNumber : List Char) : Double → List Char
  | .notANumber => noNumber
  | .signed negative code =>
    (if negative then ['-'] else []) ++
      if code = infinite then infinity else codeText code

/-- The number as documents write it. -/
def written : Double → List Char := textWith "Infinity".toList "NaN".toList

/-- The number as it is shown inside texts. -/
def shown (x : Double) : String := String.ofList (textWith "inf".toList "nan".toList x)

end Double

end CodeAtlas
