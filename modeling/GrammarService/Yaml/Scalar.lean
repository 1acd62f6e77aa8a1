namespace GrammarService

/-!
# YAML scalars

A scalar is written plainly or between quotes, and can go on over several lines. A single line
break in it stands for a blank, and of several breaks the first stands for nothing; blanks around
a break are left out. Between double quotes a backslash begins an escape.
-/

namespace Yaml

/-- The unread rest of a text and where it begins. -/
structure Cursor where
  rest : List Char
  offset : Nat
  line : Nat
  column : Nat
  deriving Repr, Inhabited

/-- Whether a character is a blank. -/
def isBlank (character : Char) : Bool :=
  character = ' ' || character = '\t'

/-- Whether a character ends a line. -/
def isBreak (character : Char) : Bool :=
  character = '\n' || character = '\r' || character = '\x85' || character = '\u2028' ||
    character = '\u2029'

/-- The character that a line break is read as. -/
def breakOf (character : Char) : Char :=
  if character = '\u2028' || character = '\u2029' then character else '\n'

/-- Whether a word ends in front of a text. -/
def atWordEnd : List Char → Bool
  | [] => true
  | character :: _ => isBlank character || isBreak character

/-- Whether a mark between documents begins a line. -/
def atDocumentMark
    (column : Nat) :
    List Char → Bool
  | '-' :: '-' :: '-' :: rest => column = 0 && atWordEnd rest
  | '.' :: '.' :: '.' :: rest => column = 0 && atWordEnd rest
  | _ => false

namespace Cursor

/-- Pass over characters of a line. -/
def skip
    (cursor : Cursor)
    (count : Nat) :
    Cursor where
  rest := cursor.rest.drop count
  offset := cursor.offset + count
  line := cursor.line
  column := cursor.column + count

end Cursor

/-- A scalar of which a part was read, with the blanks and breaks behind that part. -/
structure PartialScalar where
  /-- The text read so far, the last character first. -/
  text : List Char
  /-- The blanks behind it, the last one first. -/
  blanks : List Char
  /-- The first line break behind it; an escaped one counts as empty. -/
  firstBreak : Option (List Char)
  /-- The line breaks behind the first one, the last one first. -/
  moreBreaks : List Char
  deriving Repr, Inhabited

namespace PartialScalar

/-- A scalar of which nothing was read. -/
def start : PartialScalar where
  text := []
  blanks := []
  firstBreak := none
  moreBreaks := []

/-- Whether a line ended behind the text. -/
def isBroken (scalar : PartialScalar) : Bool :=
  scalar.firstBreak.isSome

/-- What the blanks and breaks behind the text stand for, the last character first. -/
def gap (scalar : PartialScalar) : List Char :=
  match scalar.firstBreak with
  | none => scalar.blanks
  | some ['\n'] => if scalar.moreBreaks.isEmpty then [' '] else scalar.moreBreaks
  | some other => scalar.moreBreaks ++ other

/-- Make the blanks and breaks part of the text. -/
def close (scalar : PartialScalar) : PartialScalar :=
  { start with text := scalar.gap ++ scalar.text }

/-- Read a character that is neither blank nor break. -/
def push
    (scalar : PartialScalar)
    (character : Char) :
    PartialScalar :=
  { start with text := character :: scalar.close.text }

/-- Read a blank. -/
def pushBlank
    (scalar : PartialScalar)
    (character : Char) :
    PartialScalar :=
  if scalar.isBroken then
    scalar
  else
    { scalar with blanks := character :: scalar.blanks }

/-- Read a line break. -/
def pushBreak
    (scalar : PartialScalar)
    (character : Char) :
    PartialScalar :=
  if scalar.isBroken then
    { scalar with moreBreaks := breakOf character :: scalar.moreBreaks }
  else
    { scalar with blanks := [], firstBreak := some [breakOf character] }

/-- Read an escaped line break. -/
def pushEscapedBreak (scalar : PartialScalar) : PartialScalar :=
  { scalar.close with firstBreak := some [] }

/-- The text of the scalar. -/
def toText (scalar : PartialScalar) : String :=
  String.ofList scalar.text.reverse

end PartialScalar

/-- Whether a character ends a plain scalar inside of brackets. -/
def isFlowMark (character : Char) : Bool :=
  character = ',' || character = '[' || character = ']' || character = '\x7b' ||
    character = '\x7d'

/--
Read a plain scalar, from its first character on. Outside of brackets, it ends at a line that is
indented less than `indent`. The result also holds what is left of the text.
-/
def readPlain
    (inFlow : Bool)
    (indent : Int)
    (offset line column : Nat)
    (scalar : PartialScalar) :
    List Char → Option (PartialScalar × Cursor)
  | [] => some (scalar, ⟨[], offset, line, column⟩)
  | '\r' :: '\n' :: rest =>
      readPlain inFlow indent (offset + 2) (line + 1) 0 (scalar.pushBreak '\n') rest
  | character :: rest =>
      let stop := some (scalar, (⟨character :: rest, offset, line, column⟩ : Cursor))
      if isBreak character then
        readPlain inFlow indent (offset + 1) (line + 1) 0 (scalar.pushBreak character) rest
      else if isBlank character then
        if scalar.isBroken && (column : Int) < indent && character = '\t' then
          none
        else
          readPlain inFlow indent (offset + 1) line (column + 1) (scalar.pushBlank character) rest
      else if !inFlow && scalar.isBroken && (column : Int) < indent then
        stop
      else if atDocumentMark column (character :: rest) then
        stop
      else if character = '#' && (scalar.isBroken || !scalar.blanks.isEmpty) then
        stop
      else if character = ':' && atWordEnd rest then
        stop
      else if inFlow && character = ':' && (rest.take 1).any (fun next => isFlowMark next || next = '?') then
        none
      else if inFlow && isFlowMark character then
        stop
      else
        readPlain inFlow indent (offset + 1) line (column + 1) (scalar.push character) rest

/-- Read a scalar between single quotes, from behind the first of them on. -/
def readSingleQuoted
    (offset line column : Nat)
    (scalar : PartialScalar) :
    List Char → Option (PartialScalar × Cursor)
  | [] => none
  | '\r' :: '\n' :: rest =>
      readSingleQuoted (offset + 2) (line + 1) 0 (scalar.pushBreak '\n') rest
  | '\'' :: '\'' :: rest =>
      readSingleQuoted (offset + 2) line (column + 2) (scalar.push '\'') rest
  | character :: rest =>
      if character = '\'' then
        some (scalar.close, ⟨rest, offset + 1, line, column + 1⟩)
      else if atDocumentMark column (character :: rest) then
        none
      else if isBreak character then
        readSingleQuoted (offset + 1) (line + 1) 0 (scalar.pushBreak character) rest
      else if isBlank character then
        readSingleQuoted (offset + 1) line (column + 1) (scalar.pushBlank character) rest
      else
        readSingleQuoted (offset + 1) line (column + 1) (scalar.push character) rest

/-- The character that a letter stands for behind a backslash. -/
def unescape? : Char → Option Char
  | '0' => some '\x00'
  | 'a' => some '\x07'
  | 'b' => some '\x08'
  | 't' => some '\t'
  | '\t' => some '\t'
  | 'n' => some '\n'
  | 'v' => some '\x0b'
  | 'f' => some '\x0c'
  | 'r' => some '\r'
  | 'e' => some '\x1b'
  | ' ' => some ' '
  | '"' => some '"'
  | '/' => some '/'
  | '\\' => some '\\'
  | 'N' => some '\x85'
  | '_' => some '\xa0'
  | 'L' => some '\u2028'
  | 'P' => some '\u2029'
  | _ => none

/-- The value of a hexadecimal digit. -/
def hexDigit? (digit : Char) : Option Nat :=
  if digit.isDigit then
    some (digit.toNat - '0'.toNat)
  else if 'a' ≤ digit && digit ≤ 'f' then
    some (digit.toNat - 'a'.toNat + 10)
  else if 'A' ≤ digit && digit ≤ 'F' then
    some (digit.toNat - 'A'.toNat + 10)
  else
    none

/-- The character whose code point hexadecimal digits give. -/
def ofHexDigits? (digits : List Char) : Option Char := do
  let values ← digits.mapM hexDigit?
  let code := values.foldl (fun code value => 16 * code + value) 0
  if code.isValidChar then
    some (Char.ofNat code)
  else
    none

/-- Read a scalar between double quotes, from behind the first of them on. -/
def readDoubleQuoted
    (offset line column : Nat)
    (scalar : PartialScalar) :
    List Char → Option (PartialScalar × Cursor)
  | [] => none
  | '\r' :: '\n' :: rest =>
      readDoubleQuoted (offset + 2) (line + 1) 0 (scalar.pushBreak '\n') rest
  | '\\' :: '\r' :: '\n' :: rest =>
      readDoubleQuoted (offset + 3) (line + 1) 0 scalar.pushEscapedBreak rest
  | '\\' :: 'x' :: a :: b :: rest =>
      match ofHexDigits? [a, b] with
      | none => none
      | some character =>
          readDoubleQuoted (offset + 4) line (column + 4) (scalar.push character) rest
  | '\\' :: 'u' :: a :: b :: c :: d :: rest =>
      match ofHexDigits? [a, b, c, d] with
      | none => none
      | some character =>
          readDoubleQuoted (offset + 6) line (column + 6) (scalar.push character) rest
  | '\\' :: 'U' :: a :: b :: c :: d :: e :: f :: g :: h :: rest =>
      match ofHexDigits? [a, b, c, d, e, f, g, h] with
      | none => none
      | some character =>
          readDoubleQuoted (offset + 10) line (column + 10) (scalar.push character) rest
  | '\\' :: letter :: rest =>
      if isBreak letter then
        readDoubleQuoted (offset + 2) (line + 1) 0 scalar.pushEscapedBreak rest
      else
        match unescape? letter with
        | none => none
        | some character =>
            readDoubleQuoted (offset + 2) line (column + 2) (scalar.push character) rest
  | character :: rest =>
      if character = '"' then
        some (scalar.close, ⟨rest, offset + 1, line, column + 1⟩)
      else if atDocumentMark column (character :: rest) then
        none
      else if isBreak character then
        readDoubleQuoted (offset + 1) (line + 1) 0 (scalar.pushBreak character) rest
      else if isBlank character then
        readDoubleQuoted (offset + 1) line (column + 1) (scalar.pushBlank character) rest
      else
        readDoubleQuoted (offset + 1) line (column + 1) (scalar.push character) rest

end Yaml

end GrammarService
