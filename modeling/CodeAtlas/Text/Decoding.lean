/-!
# Faults of encoded texts

A text is encoded in one to four bytes per character. The first byte tells how many follow, and
each of these has to lie in a range that may depend on the first. The first place where bytes
break these rules is the fault of the encoding.
-/

namespace CodeAtlas.Text

/-- Why bytes are no text. -/
inductive DecodingReason where
  | invalidStart
  | invalidContinuation
  | unexpectedEnd
  deriving Repr, DecidableEq, Inhabited

/-- The first place where bytes are no text: its first byte, its position, and how many bytes
are at fault. -/
structure DecodingFault where
  byte : UInt8
  position : Nat
  length : Nat
  reason : DecodingReason
  deriving Repr, DecidableEq, Inhabited

namespace DecodingFault

/-- The ranges of the bytes that have to follow a first byte; `none` if it is none. -/
def followers (first : UInt8) : Option (List (UInt8 × UInt8)) :=
  if first < 0x80 then some []
  else if first < 0xC2 then none
  else if first < 0xE0 then some [(0x80, 0xBF)]
  else if first < 0xF0 then
    some [(if first = 0xE0 then 0xA0 else 0x80, if first = 0xED then 0x9F else 0xBF), (0x80, 0xBF)]
  else if first < 0xF5 then
    some [(if first = 0xF0 then 0x90 else 0x80, if first = 0xF4 then 0x8F else 0xBF),
      (0x80, 0xBF), (0x80, 0xBF)]
  else none

/-- How many of the following bytes lie in their ranges, and whether one does not; `none` if all
do. -/
def checkFollowers : List (UInt8 × UInt8) → List UInt8 → Option (Nat × DecodingReason)
  | [], _ => none
  | _ :: _, [] => some (0, .unexpectedEnd)
  | (low, high) :: ranges, b :: rest =>
    if b < low || high < b then some (0, .invalidContinuation)
    else (checkFollowers ranges rest).map fun (n, reason) => (n + 1, reason)

/-- The first fault of bytes that begin at a position. `skipped` of them belong to a character
that has been checked. -/
def find? (position : Nat) : Nat → List UInt8 → Option DecodingFault
  | _, [] => none
  | skipped + 1, _ :: rest => find? (position + 1) skipped rest
  | 0, b :: rest =>
    match followers b with
    | none => some ⟨b, position, 1, .invalidStart⟩
    | some ranges =>
      match checkFollowers ranges rest with
      | some (n, reason) => some ⟨b, position, n + 1, reason⟩
      | none => find? (position + 1) ranges.length rest

/-- The fault of bytes that are no text. -/
def ofBytes (content : ByteArray) : DecodingFault := (find? 0 0 content.data.toList).getD default

end DecodingFault

end CodeAtlas.Text
