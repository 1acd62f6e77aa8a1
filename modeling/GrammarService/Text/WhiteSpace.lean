namespace GrammarService

/-!
# White space

The characters with the Unicode property `White_Space`, and trimming a text of them.
-/

/-- The code points with the property `White_Space`, as ascending inclusive ranges. -/
def whiteSpaceRanges : List (Nat × Nat) :=
  [(0x9, 0xD), (0x20, 0x20), (0x85, 0x85), (0xA0, 0xA0), (0x1680, 0x1680), (0x2000, 0x200A),
    (0x2028, 0x2029), (0x202F, 0x202F), (0x205F, 0x205F), (0x3000, 0x3000)]

/-- Whether a character is white space. -/
def isWhiteSpace (character : Char) : Bool :=
  whiteSpaceRanges.any fun (first, last) =>
    first ≤ character.toNat && character.toNat ≤ last

namespace Text

/-- The text without the white space it starts with. -/
def trimStart (text : List Char) : List Char :=
  text.dropWhile isWhiteSpace

/-- The text without trailing characters of a class. -/
def dropEndWhile
    (inClass : Char → Bool)
    (text : List Char) :
    List Char :=
  (text.reverse.dropWhile inClass).reverse

/-- The text without the white space it ends with. -/
def trimEnd (text : List Char) : List Char :=
  dropEndWhile isWhiteSpace text

/-- The text without the white space it starts and ends with. -/
def trim (text : List Char) : List Char :=
  trimEnd (trimStart text)

/-- Whether the text holds nothing but white space. -/
def isBlank (text : String) : Bool :=
  text.toList.all isWhiteSpace

end Text

end GrammarService
