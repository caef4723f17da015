/-!
# Blank and control characters

Two character classes of Unicode that the rules of this library speak of:
`isBlank` is the property `White_Space`, `isControl` the category `Cc`. Text is
split and trimmed at blanks; identifiers hold neither blanks nor controls.
-/

namespace LocaleWatch.Text

/-- Unicode `White_Space`. -/
def isBlank (c : Char) : Bool :=
  let n := c.toNat
  (0x09 ≤ n && n ≤ 0x0D) || n = 0x20 || n = 0x85 || n = 0xA0 || n = 0x1680 ||
    (0x2000 ≤ n && n ≤ 0x200A) || n = 0x2028 || n = 0x2029 || n = 0x202F ||
    n = 0x205F || n = 0x3000

/-- Unicode category `Cc`. -/
def isControl (c : Char) : Bool :=
  let n := c.toNat
  n ≤ 0x1F || (0x7F ≤ n && n ≤ 0x9F)

/-- The text without the blanks at both ends. -/
def trim (text : String) : String :=
  String.ofList (((text.toList.dropWhile isBlank).reverse.dropWhile isBlank).reverse)

/-- The maximal blank-free pieces of a character list, `piece` being the piece
that is being read. -/
def splitBlanksFrom (piece : List Char) : List Char → List (List Char)
  | [] => if piece.isEmpty then [] else [piece]
  | c :: rest =>
    if isBlank c then
      if piece.isEmpty then splitBlanksFrom [] rest else piece :: splitBlanksFrom [] rest
    else splitBlanksFrom (piece ++ [c]) rest

/-- The maximal blank-free pieces of a text. -/
def splitBlanks (text : String) : List String :=
  (splitBlanksFrom [] text.toList).map String.ofList

end LocaleWatch.Text
