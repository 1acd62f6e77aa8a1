import GrammarService.Json.Basic
import GrammarService.Json.Number

namespace GrammarService

/-!
# Reading JSON

A whole text is read as one value, with JSON's own white space around it and nothing else. Arrays
and objects nest up to `maxDepth` deep, numbers have to fit a double, and every escaped surrogate
has to be part of a pair.
-/

namespace Json

/-- How deep arrays and objects can nest. -/
def maxDepth : Nat :=
  127

/-- Whether a character separates the parts of a JSON text. -/
def isSpace (character : Char) : Bool :=
  character = ' ' || character = '\n' || character = '\t' || character = '\r'

/-- The text behind leading white space. -/
def skipSpace (text : List Char) : List Char :=
  text.dropWhile isSpace

/-- The value of a hexadecimal digit. -/
def hexValue? (digit : Char) : Option Nat :=
  if digit.isDigit then
    some (digit.toNat - '0'.toNat)
  else if 'a' ≤ digit && digit ≤ 'f' then
    some (digit.toNat - 'a'.toNat + 10)
  else if 'A' ≤ digit && digit ≤ 'F' then
    some (digit.toNat - 'A'.toNat + 10)
  else
    none

/-- The number that four hexadecimal digits stand for. -/
def unit? (first second third fourth : Char) : Option Nat := do
  let first ← hexValue? first
  let second ← hexValue? second
  let third ← hexValue? third
  let fourth ← hexValue? fourth
  return ((first * 16 + second) * 16 + third) * 16 + fourth

/-- Whether a number is the first of a surrogate pair. -/
def isHighSurrogate (unit : Nat) : Bool :=
  0xD800 ≤ unit && unit ≤ 0xDBFF

/-- Whether a number is the second of a surrogate pair. -/
def isLowSurrogate (unit : Nat) : Bool :=
  0xDC00 ≤ unit && unit ≤ 0xDFFF

/-- The character that a surrogate pair stands for. -/
def ofSurrogates (high low : Nat) : Char :=
  Char.ofNat (0x10000 + (high - 0xD800) * 0x400 + (low - 0xDC00))

/-- The character that a letter stands for behind a backslash. -/
def unescape? : Char → Option Char
  | '"' => some '"'
  | '\\' => some '\\'
  | '/' => some '/'
  | 'b' => some '\x08'
  | 'f' => some '\x0c'
  | 'n' => some '\n'
  | 'r' => some '\r'
  | 't' => some '\t'
  | _ => none

/-- Put a character in front of a string that was read. -/
def prepend
    (character : Char)
    (read : Option (List Char × List Char)) :
    Option (List Char × List Char) :=
  read.map fun (text, rest) => (character :: text, rest)

/-- Split off a string behind its opening quote. -/
def readString : List Char → Option (List Char × List Char)
  | '"' :: rest => some ([], rest)
  | '\\' :: 'u' :: a :: b :: c :: d :: rest =>
      match unit? a b c d with
      | none => none
      | some unit =>
          if isHighSurrogate unit then
            match rest with
            | '\\' :: 'u' :: e :: f :: g :: h :: rest =>
                match unit? e f g h with
                | none => none
                | some low =>
                    if isLowSurrogate low then
                      prepend (ofSurrogates unit low) (readString rest)
                    else
                      none
            | _ => none
          else if isLowSurrogate unit then
            none
          else
            prepend (Char.ofNat unit) (readString rest)
  | '\\' :: letter :: rest =>
      match unescape? letter with
      | none => none
      | some character => prepend character (readString rest)
  | character :: rest =>
      if character.toNat < 0x20 || character = '\\' then
        none
      else
        prepend character (readString rest)
  | [] => none

/-- Split off a number. -/
def readNumber? (text : List Char) : Option (Value × List Char) :=
  match Number.take? text with
  | none => none
  | some (spelling, rest) =>
      if Number.fitsDouble spelling then
        some (.number (String.ofList (text.take (text.length - rest.length))), rest)
      else
        none

mutual

/-- Split off a value that may nest `depth` deep; `fuel` exceeds the steps to take. -/
def readValue :
    (fuel depth : Nat) → List Char → Option (Value × List Char)
  | 0, _, _ => none
  | fuel + 1, depth, text =>
      match skipSpace text with
      | 'n' :: 'u' :: 'l' :: 'l' :: rest => some (.null, rest)
      | 't' :: 'r' :: 'u' :: 'e' :: rest => some (.boolean true, rest)
      | 'f' :: 'a' :: 'l' :: 's' :: 'e' :: rest => some (.boolean false, rest)
      | '"' :: rest => (readString rest).map fun (text, rest) => (.string (String.ofList text), rest)
      | '[' :: rest =>
          match depth, skipSpace rest with
          | 0, _ => none
          | _ + 1, ']' :: rest => some (.array [], rest)
          | depth + 1, rest =>
              (readElements fuel depth rest).map fun (elements, rest) => (.array elements, rest)
      | '\x7b' :: rest =>
          match depth, skipSpace rest with
          | 0, _ => none
          | _ + 1, '\x7d' :: rest => some (.object [], rest)
          | depth + 1, rest =>
              (readMembers fuel depth rest).map fun (members, rest) => (.object members, rest)
      | text => readNumber? text

/-- Split off the elements of an array and its closing bracket. -/
def readElements :
    (fuel depth : Nat) → List Char → Option (List Value × List Char)
  | 0, _, _ => none
  | fuel + 1, depth, text =>
      match readValue fuel depth text with
      | none => none
      | some (element, rest) =>
          match skipSpace rest with
          | ',' :: rest =>
              (readElements fuel depth rest).map fun (elements, rest) =>
                (element :: elements, rest)
          | ']' :: rest => some ([element], rest)
          | _ => none

/-- Split off the members of an object and its closing brace. -/
def readMembers :
    (fuel depth : Nat) → List Char → Option (List (String × Value) × List Char)
  | 0, _, _ => none
  | fuel + 1, depth, text =>
      match skipSpace text with
      | '"' :: rest =>
          match readString rest with
          | none => none
          | some (key, rest) =>
              match skipSpace rest with
              | ':' :: rest =>
                  match readValue fuel depth rest with
                  | none => none
                  | some (value, rest) =>
                      match skipSpace rest with
                      | ',' :: rest =>
                          (readMembers fuel depth rest).map fun (members, rest) =>
                            ((String.ofList key, value) :: members, rest)
                      | '\x7d' :: rest => some ([(String.ofList key, value)], rest)
                      | _ => none
              | _ => none
      | _ => none

end

/-- Read a whole text as one value. Every two steps use up a character. -/
def read (text : String) : Option Value :=
  let characters := text.toList
  match readValue (2 * characters.length + 2) maxDepth characters with
  | some (value, rest) => if (skipSpace rest).isEmpty then some value else none
  | none => none

end Json

end GrammarService
