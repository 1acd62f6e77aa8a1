import GrammarService.Yaml.Scalar

namespace GrammarService

/-!
# YAML tokens

A text is cut into marks and scalars. Indentation becomes tokens too: outside of brackets, a list
or mapping that is indented more than what is around it begins, and it ends where a line is indented
less. A scalar turns out to be a key only at the colon behind it, so the scanner remembers where a
key may have begun.
-/

namespace Yaml

/-- A part of a text. -/
inductive Token
  | documentStart
  | documentEnd
  | blockListStart
  | blockMappingStart
  | blockEnd
  | flowListStart
  | flowListEnd
  | flowMappingStart
  | flowMappingEnd
  | blockEntry
  | flowEntry
  | key
  | value
  | scalar (text : String) (isPlain : Bool)
  deriving Repr, DecidableEq, Inhabited

/-- A place at which a key may have begun. -/
structure KeyPlace where
  /-- The number of the first token of the key. -/
  position : Nat
  offset : Nat
  line : Nat
  column : Nat
  /-- Whether nothing but a key can begin here. -/
  required : Bool
  deriving Repr, Inhabited

/-- A text that is being cut into tokens. -/
structure Scanner where
  cursor : Cursor
  /-- How far the open blocks are indented, the innermost one first. -/
  indents : List Nat
  /-- Where a key may have begun, outside of brackets. -/
  blockKey : Option KeyPlace
  /-- Where a key may have begun inside of each open bracket, the innermost one first. -/
  flowKeys : List (Option KeyPlace)
  /-- Whether a key can begin here. -/
  keyAllowed : Bool
  tokens : Array Token
  deriving Inhabited

namespace Scanner

/-- A text that nothing was cut off from. -/
def start (text : List Char) : Scanner where
  cursor := ⟨text, 0, 0, 0⟩
  indents := []
  blockKey := none
  flowKeys := []
  keyAllowed := true
  tokens := #[]

/-- Whether a bracket is open. -/
def inFlow (scanner : Scanner) : Bool :=
  !scanner.flowKeys.isEmpty

/-- How far the innermost block is indented; the text as a whole comes in front of every column. -/
def indent (scanner : Scanner) : Int :=
  match scanner.indents with
  | [] => -1
  | indent :: _ => indent

/-- Add a token. -/
def push
    (scanner : Scanner)
    (token : Token) :
    Scanner :=
  { scanner with tokens := scanner.tokens.push token }

/-- Add a token that takes up characters. -/
def take
    (scanner : Scanner)
    (count : Nat)
    (token : Token) :
    Scanner :=
  { scanner with cursor := scanner.cursor.skip count, tokens := scanner.tokens.push token }

/-- Where a key may have begun inside of the innermost bracket. -/
def keyPlace (scanner : Scanner) : Option KeyPlace :=
  match scanner.flowKeys with
  | [] => scanner.blockKey
  | place :: _ => place

/-- Remember where a key may have begun inside of the innermost bracket. -/
def withKeyPlace
    (scanner : Scanner)
    (place : Option KeyPlace) :
    Scanner :=
  match scanner.flowKeys with
  | [] => { scanner with blockKey := place }
  | _ :: outer => { scanner with flowKeys := place :: outer }

/-- Forget where a key may have begun, unless it had to be one. -/
def dropKey (scanner : Scanner) : Option Scanner :=
  match scanner.keyPlace with
  | some place => if place.required then none else some (scanner.withKeyPlace none)
  | none => some scanner

/-- Remember that a key may begin here. -/
def saveKey (scanner : Scanner) : Option Scanner := do
  if scanner.keyAllowed then
    let dropped ← scanner.dropKey
    let cursor := scanner.cursor
    return dropped.withKeyPlace (some {
      position := scanner.tokens.size
      offset := cursor.offset
      line := cursor.line
      column := cursor.column
      required := !scanner.inFlow && scanner.indent = cursor.column })
  else
    return scanner

/-- How many characters there can be between the beginning of a key and its colon. -/
def maxKeyLength : Nat :=
  1024

/-- Whether the colon of a key can no longer come. -/
def isOver
    (cursor : Cursor)
    (place : KeyPlace) :
    Bool :=
  place.line < cursor.line || place.offset + maxKeyLength < cursor.offset

/-- Forget where keys may have begun whose colon can no longer come. -/
def expireKeys (scanner : Scanner) : Option Scanner :=
  let expired := isOver scanner.cursor
  let places := scanner.blockKey :: scanner.flowKeys
  if places.any fun place => place.any fun place => place.required && expired place then
    none
  else
    some { scanner with
      blockKey := scanner.blockKey.filter fun place => !expired place
      flowKeys := scanner.flowKeys.map fun place => place.filter fun place => !expired place }

/-- End the blocks that are indented more than a column. -/
def endBlocks
    (column : Int)
    (tokens : Array Token) :
    List Nat → List Nat × Array Token
  | [] => ([], tokens)
  | indent :: indents =>
      if column < indent then
        endBlocks column (tokens.push .blockEnd) indents
      else
        (indent :: indents, tokens)

/-- End the blocks that are indented more than a column, outside of brackets. -/
def unindent
    (scanner : Scanner)
    (column : Int) :
    Scanner :=
  if scanner.inFlow then
    scanner
  else
    let (indents, tokens) := endBlocks column scanner.tokens scanner.indents
    { scanner with indents := indents, tokens := tokens }

/-- Add tokens in front of the one with a number. -/
def insertAt
    (scanner : Scanner)
    (position : Nat)
    (tokens : Array Token) :
    Scanner :=
  { scanner with
    tokens := scanner.tokens.extract 0 position ++ tokens ++
      scanner.tokens.extract position scanner.tokens.size }

/-- Begin a block in front of a token if a column is indented more than the innermost block. -/
def indentTo
    (scanner : Scanner)
    (column position : Nat)
    (token : Token) :
    Scanner :=
  if !scanner.inFlow && scanner.indent < column then
    { scanner.insertAt position #[token] with indents := column :: scanner.indents }
  else
    scanner

/-- Pass over blanks, breaks and comments. The result tells whether a key can begin. -/
def skipGap
    (inFlow inComment keyAllowed : Bool)
    (offset line column : Nat) :
    List Char → Bool × Cursor
  | [] => (keyAllowed, ⟨[], offset, line, column⟩)
  | '\r' :: '\n' :: rest =>
      skipGap inFlow false (keyAllowed || !inFlow) (offset + 2) (line + 1) 0 rest
  | character :: rest =>
      if isBreak character then
        skipGap inFlow false (keyAllowed || !inFlow) (offset + 1) (line + 1) 0 rest
      else if inComment || character = '#' then
        skipGap inFlow true keyAllowed (offset + 1) line (column + 1) rest
      else if character = ' ' || (character = '\t' && (inFlow || !keyAllowed)) then
        skipGap inFlow false keyAllowed (offset + 1) line (column + 1) rest
      else
        (keyAllowed, ⟨character :: rest, offset, line, column⟩)

/-- Go on to where the next token begins. -/
def toNext (scanner : Scanner) : Option Scanner := do
  let cursor := scanner.cursor
  let (keyAllowed, cursor) :=
    skipGap scanner.inFlow false scanner.keyAllowed cursor.offset cursor.line cursor.column
      cursor.rest
  let arrived ← expireKeys { scanner with cursor := cursor, keyAllowed := keyAllowed }
  return arrived.unindent cursor.column

/-- Take a mark between documents. -/
def takeDocumentMark
    (scanner : Scanner)
    (token : Token) :
    Option Scanner := do
  let scanner ← (scanner.unindent (-1)).dropKey
  return { scanner.take 3 token with keyAllowed := false }

/-- Take an opening bracket. -/
def takeOpening
    (scanner : Scanner)
    (token : Token) :
    Option Scanner := do
  let scanner ← scanner.saveKey
  return { scanner.take 1 token with flowKeys := none :: scanner.flowKeys, keyAllowed := true }

/-- Take a closing bracket. -/
def takeClosing
    (scanner : Scanner)
    (token : Token) :
    Option Scanner := do
  let scanner ← scanner.dropKey
  return { scanner.take 1 token with flowKeys := scanner.flowKeys.tail, keyAllowed := false }

/-- Take a comma. -/
def takeComma (scanner : Scanner) : Option Scanner := do
  let scanner ← scanner.dropKey
  return { scanner.take 1 .flowEntry with keyAllowed := true }

/-- Take the dash in front of an element of a list. -/
def takeDash (scanner : Scanner) : Option Scanner := do
  if !scanner.inFlow && !scanner.keyAllowed then
    none
  else
    let scanner := scanner.indentTo scanner.cursor.column scanner.tokens.size .blockListStart
    let scanner ← scanner.dropKey
    return { scanner.take 1 .blockEntry with keyAllowed := true }

/-- Take the question mark in front of a key. -/
def takeKeyMark (scanner : Scanner) : Option Scanner := do
  if !scanner.inFlow && !scanner.keyAllowed then
    none
  else
    let scanner := scanner.indentTo scanner.cursor.column scanner.tokens.size .blockMappingStart
    let scanner ← scanner.dropKey
    return { scanner.take 1 .key with keyAllowed := !scanner.inFlow }

/-- Take the colon in front of a value. What is in front of it becomes a key. -/
def takeColon (scanner : Scanner) : Option Scanner :=
  match scanner.keyPlace with
  | some place =>
      let scanner := scanner.insertAt place.position #[.key]
      let scanner := scanner.indentTo place.column place.position .blockMappingStart
      some { (scanner.withKeyPlace none).take 1 .value with keyAllowed := false }
  | none =>
      if !scanner.inFlow && !scanner.keyAllowed then
        none
      else
        let scanner := scanner.indentTo scanner.cursor.column scanner.tokens.size .blockMappingStart
        some { scanner.take 1 .value with keyAllowed := !scanner.inFlow }

/-- Take a scalar between quotes. -/
def takeQuoted
    (scanner : Scanner)
    (read : (offset line column : Nat) → PartialScalar → List Char →
      Option (PartialScalar × Cursor)) :
    Option Scanner := do
  let scanner ← scanner.saveKey
  let inside := scanner.cursor.skip 1
  let (scalar, cursor) ←
    read inside.offset inside.line inside.column PartialScalar.start inside.rest
  return { scanner.push (.scalar scalar.toText false) with cursor := cursor, keyAllowed := false }

/-- Take a plain scalar. A key can begin behind it only in a new line. -/
def takePlain (scanner : Scanner) : Option Scanner := do
  let scanner ← scanner.saveKey
  let cursor := scanner.cursor
  let (scalar, cursor) ←
    readPlain scanner.inFlow (scanner.indent + 1) cursor.offset cursor.line cursor.column
      PartialScalar.start cursor.rest
  return { scanner.push (.scalar scalar.toText true) with
    cursor := cursor
    keyAllowed := scalar.isBroken }

/-- Whether a character has a meaning of its own where a token begins. -/
def isMark (character : Char) : Bool :=
  ['-', '?', ':', ',', '[', ']', '\x7b', '\x7d', '#', '&', '*', '!', '|', '>', '\'', '"', '%',
    '@', '\x60'].contains character

/-- Whether a plain scalar can begin with a character in front of a text. -/
def beginsPlain
    (inFlow : Bool)
    (character : Char)
    (rest : List Char) :
    Bool :=
  (!isMark character && !isBlank character) ||
    (character = '-' && !(rest.take 1).any isBlank) ||
    (!inFlow && (character = '?' || character = ':') && !atWordEnd rest)

/-- Take the token that begins here. -/
def takeToken
    (scanner : Scanner)
    (character : Char)
    (rest : List Char) :
    Option Scanner :=
  if atDocumentMark scanner.cursor.column (character :: rest) then
    scanner.takeDocumentMark (if character = '-' then .documentStart else .documentEnd)
  else if character = '[' then
    scanner.takeOpening .flowListStart
  else if character = '\x7b' then
    scanner.takeOpening .flowMappingStart
  else if character = ']' then
    scanner.takeClosing .flowListEnd
  else if character = '\x7d' then
    scanner.takeClosing .flowMappingEnd
  else if character = ',' then
    scanner.takeComma
  else if character = '-' && atWordEnd rest then
    scanner.takeDash
  else if character = '?' && atWordEnd rest then
    scanner.takeKeyMark
  else if character = ':' && (scanner.inFlow || atWordEnd rest) then
    scanner.takeColon
  else if character = '\'' then
    scanner.takeQuoted readSingleQuoted
  else if character = '"' then
    scanner.takeQuoted readDoubleQuoted
  else if beginsPlain scanner.inFlow character rest then
    scanner.takePlain
  else
    none

/-- Take all tokens; every step takes one of them, and `steps` is a bound on their number. -/
def takeAll
    (steps : Nat)
    (scanner : Scanner) :
    Option (List Token) :=
  match steps with
  | 0 => none
  | steps + 1 => do
      let scanner ← scanner.toNext
      match scanner.cursor.rest with
      | [] =>
          let ended ← (scanner.unindent (-1)).dropKey
          return ended.tokens.toList
      | character :: rest =>
          let taken ← scanner.takeToken character rest
          taken.takeAll steps

end Scanner

/-- Whether a character can be part of a text. -/
def isPrintable (character : Char) : Bool :=
  let code := character.toNat
  code = 0x9 || code = 0xA || code = 0xD || (0x20 ≤ code && code ≤ 0x7E) || code = 0x85 ||
    (0xA0 ≤ code && code ≠ 0xFEFF && code ≤ 0xFFFD) || 0x10000 ≤ code

/-- The tokens of a text, which may begin with a byte order mark. -/
def tokens? (text : List Char) : Option (List Token) :=
  let text := if text.head? = some '\ufeff' then text.tail else text
  if text.all isPrintable then
    (Scanner.start text).takeAll (text.length + 1)
  else
    none

end Yaml

end GrammarService
