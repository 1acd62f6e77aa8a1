import GrammarService.Settings.FromYaml
import GrammarService.Text.Utf8
import GrammarService.Text.WhiteSpace

namespace GrammarService

/-!
# Settings in environment variables

A variable whose name begins with a prefix, in any case, holds the setting with the rest of the name
as its key. A value is read as a truth value, a number, a text in double quotes, a character in
single quotes, a list in brackets or a group in braces, and is a text as it stands if it is none of
them.
-/

namespace Setting

/-- Whether a character is ASCII white space. -/
def isAsciiSpace (character : Char) : Bool :=
  character = ' ' || character = '\t' || character = '\n' || character = '\x0c' || character = '\r'

/-- Whether a character is none of those that give lists and groups their form. -/
def isInner (character : Char) : Bool :=
  !Yaml.isFlowMark character

/-- Whether a character can be part of a key without quotes. -/
def isKeyCharacter (character : Char) : Bool :=
  character.isAlphanum || character = '_' || character = '-'

/-- Split off a text behind its opening quote, where each escape stands for its character. -/
def takeEscapedText? : List Char → Option (List Char × List Char)
  | '\\' :: 'u' :: a :: b :: c :: d :: rest => do
      let character ← Yaml.ofHexDigits? [a, b, c, d]
      let (text, rest) ← takeEscapedText? rest
      return (character :: text, rest)
  | '\\' :: 'U' :: a :: b :: c :: d :: e :: f :: g :: h :: rest => do
      let character ← Yaml.ofHexDigits? [a, b, c, d, e, f, g, h]
      let (text, rest) ← takeEscapedText? rest
      return (character :: text, rest)
  | '\\' :: letter :: rest => do
      let character ←
        [('"', '"'), ('\\', '\\'), ('b', '\x08'), ('f', '\x0c'), ('n', '\n'), ('r', '\r'),
          ('t', '\t')].lookup letter
      let (text, rest) ← takeEscapedText? rest
      return (character :: text, rest)
  | '"' :: rest => some ([], rest)
  | character :: rest => do
      if character = '\\' || character = '\x7f' ||
          (character.toNat < 0x20 && character ≠ '\t') then
        none
      else
        let (text, rest) ← takeEscapedText? rest
        return (character :: text, rest)
  | [] => none

/-- Whether a character can be part of a text in quotes as it stands. -/
def isQuotable (character : Char) : Bool :=
  character ≠ '"' && character ≠ '\\'

/--
Split off a text behind its opening quote. If there is an escape in it, what stands before the first
one is cut to as many bytes as it has characters.
-/
def takeQuotedText? (characters : List Char) : Option (List Char × List Char) :=
  (takeEscapedText? characters).map fun (text, rest) =>
    let plain := characters.takeWhile isQuotable
    if (characters.drop plain.length).head? = some '\\' then
      (Utf8.takeBytes plain.length plain ++ text.drop plain.length, rest)
    else
      (text, rest)

/-- The setting that a value without quotes stands for. -/
def ofWord (word : List Char) : Setting :=
  let trimmed := Text.trim word
  let fraction := if trimmed.contains '.' then Double.read? trimmed else none
  match fraction, Text.integer? trimmed with
  | some value, _ => .fractional value
  | none, some value =>
      if trimmed.head? = some '-' then
        if minSigned64 ≤ value then .signed value else .string (String.ofList trimmed)
      else if value.toNat ≤ maxUnsigned64 then
        .unsigned value.toNat
      else
        .string (String.ofList trimmed)
  | none, none => .string (String.ofList trimmed)

/-- Split off a key. -/
def takeKey? : List Char → Option (String × List Char)
  | '"' :: rest => (takeQuotedText? rest).map fun (text, rest) => (String.ofList text, rest)
  | text =>
      match text.span isKeyCharacter with
      | ([], _) => none
      | (key, rest) => some (String.ofList key, rest)

mutual

/-- Split off a value with the white space around it; `fuel` exceeds the steps to take. -/
def takeValue? : (fuel : Nat) → List Char → Option (Setting × List Char)
  | 0, _ => none
  | fuel + 1, text =>
      let value : Option (Setting × List Char) :=
        match text.dropWhile isAsciiSpace with
        | 't' :: 'r' :: 'u' :: 'e' :: rest => some (.boolean true, rest)
        | 'f' :: 'a' :: 'l' :: 's' :: 'e' :: rest => some (.boolean false, rest)
        | '\x7b' :: rest => (takeMembers? fuel rest).map fun (members, rest) => (.group members, rest)
        | '[' :: rest => (takeElements? fuel rest).map fun (elements, rest) => (.list elements, rest)
        | '"' :: rest =>
            (takeQuotedText? rest).map fun (text, rest) => (.string (String.ofList text), rest)
        | '\'' :: character :: '\'' :: rest => some (.single character, rest)
        | '\'' :: _ => none
        | rest => some (ofWord (rest.takeWhile isInner), rest.dropWhile isInner)
      value.map fun (setting, rest) => (setting, rest.dropWhile isAsciiSpace)

/-- Split off the elements of a list and its closing bracket. -/
def takeElements? : (fuel : Nat) → List Char → Option (List Setting × List Char)
  | 0, _ => none
  | _ + 1, ']' :: rest => some ([], rest)
  | fuel + 1, text =>
      match takeValue? fuel text with
      | some (element, ',' :: rest) =>
          (takeElements? fuel rest).map fun (elements, rest) => (element :: elements, rest)
      | some (element, ']' :: rest) => some ([element], rest)
      | _ => none

/-- Split off the members of a group and its closing brace; the last one with a key counts. -/
def takeMembers? : (fuel : Nat) → List Char → Option (List (String × Setting) × List Char)
  | 0, _ => none
  | _ + 1, '\x7d' :: rest => some ([], rest)
  | fuel + 1, text =>
      match takeKey? (text.dropWhile isAsciiSpace) with
      | none => none
      | some (key, rest) =>
          match rest.dropWhile isAsciiSpace with
          | '=' :: rest =>
              match takeValue? fuel rest with
              | some (value, ',' :: rest) =>
                  (takeMembers? fuel rest).map fun (members, rest) =>
                    (if (members.lookup key).isSome then members
                      else insertMember key value members, rest)
              | some (value, '\x7d' :: rest) => some ([(key, value)], rest)
              | _ => none
          | _ => none

end

/-- The setting that the value of a variable stands for. -/
def ofValue (value : String) : Setting :=
  let characters := value.toList
  match takeValue? (2 * characters.length + 2) characters with
  | some (setting, []) => setting
  | _ => .string value

/-- A setting inside of nested groups. -/
def nest
    (setting : Setting) :
    List String → Setting
  | [] => setting
  | key :: keys => .group [(key, nest setting keys)]

/-- The text behind a prefix, if the text begins with it in any case. -/
def behindPrefix?
    (start text : List Char) :
    Option (List Char) :=
  if (start.map Char.toLower).isPrefixOf (text.map Char.toLower) then
    some (text.drop start.length)
  else
    none

/-- The group that holds the setting of a variable, if its name begins with a prefix. -/
def ofVariable?
    (start : String)
    (name value : String) :
    Option Setting := do
  let rest ← behindPrefix? start.toList (Text.trim name.toList)
  let keys := (String.ofList (Text.trim rest)).toLower.splitOn "."
  if keys.contains "" then
    none
  else
    return nest (ofValue value) keys

/-- The settings of all variables whose names begin with a prefix. -/
def ofEnvironment
    (start : String)
    (environment : List (String × String)) :
    Setting :=
  (environment.filterMap fun (name, value) => ofVariable? start name value).foldl merge (.group [])

end Setting

end GrammarService
