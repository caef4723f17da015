import LocaleWatch.Path

/-!
# References

A reference is a file in a repository that holds either the identifier of a commit or,
after `ref: `, the name of another reference.
-/

namespace LocaleWatch

/-- What a reference holds. -/
inductive GitReference where
  | commit
  | symbolic (name : List UInt8)
  deriving DecidableEq, Repr

namespace GitReference

/-- Whether a byte is a space. -/
def isSpace (b : UInt8) : Bool :=
  b = 0x20 || (9 ≤ b && b ≤ 13)

/-- Whether a byte is a hexadecimal digit. -/
def isHexDigit (b : UInt8) : Bool :=
  (0x30 ≤ b && b ≤ 0x39) || (0x41 ≤ b && b ≤ 0x46) || (0x61 ≤ b && b ≤ 0x66)

/-- What stands before the name of another reference. -/
def symbolicMark : List UInt8 := Text.bytes "ref: "

/-- What a reference's file holds, unless it is damaged. -/
def ofBytes? (bytes : List UInt8) : Option GitReference :=
  if symbolicMark.isPrefixOf bytes then
    let name := (bytes.drop symbolicMark.length).reverse.dropWhile isSpace |>.reverse
    if name.isEmpty then none else some (.symbolic name)
  else
    let isEnd (b : UInt8) : Bool := b = 0 || isSpace b
    let isIdentifier := 40 ≤ bytes.length && (bytes.take 40).all isHexDigit
    if isIdentifier && (bytes.drop 40).head?.all isEnd then some .commit else none

/-- Whether two bytes follow one another in a list. -/
def hasPair (first second : UInt8) : List UInt8 → Bool
  | b :: c :: rest => (b = first && c = second) || hasPair first second (c :: rest)
  | _ => false

/-- Whether a byte may stand in a reference's name. -/
def isNameByte (b : UInt8) : Bool :=
  0x20 < b && !(Text.bytes "~^:\\?[*").contains b

/-- Whether bytes are a part of a reference's name between separators. -/
def isNamePart (part : List UInt8) : Bool :=
  !part.isEmpty && part.all isNameByte && part.head? ≠ some fullStop &&
    !hasPair fullStop fullStop part && !hasPair 0x40 0x7B part &&
    !(Text.bytes ".lock").isSuffixOf part

/-- Whether a part of a name is in capitals, as only a name of one part may be. -/
def isCapitals (part : List UInt8) : Bool :=
  part.all (fun b => (0x41 ≤ b && b ≤ 0x5A) || b = 0x5F) &&
    part.head? ≠ some 0x5F && part.getLast? ≠ some 0x5F

/-- The name of a reference that bytes write: several parts, of which the first is not in
capitals, or one part in capitals. More than one separator between two parts counts as one;
there is none at the ends. -/
def name? (written : List UInt8) : Option (List UInt8) :=
  let pieces := Path.pieces written
  let parts := pieces.filter (· ≠ [])
  if pieces.head? ≠ some [] && pieces.getLast? ≠ some [] && parts.all isNamePart &&
      written.getLast? ≠ some fullStop && (parts.length = 1) == isCapitals (parts.headD []) then
    some ([slash].intercalate parts)
  else none

end GitReference

end LocaleWatch
