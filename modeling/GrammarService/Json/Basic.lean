namespace GrammarService

/-!
# JSON values

The values a JSON text stands for. Numbers are kept as they are spelled, since nothing computes
with them.
-/

/-- A JSON value. -/
inductive Json.Value
  | null
  | boolean (value : Bool)
  | number (spelling : String)
  | string (text : String)
  | array (elements : List Json.Value)
  /-- The members in the order of the text; a key can be repeated. -/
  | object (members : List (String × Json.Value))
  deriving Repr, Inhabited

namespace Json.Value

/-- The value of a key of an object: that of its last member with the key. -/
def get?
    (value : Value)
    (key : String) :
    Option Value :=
  match value with
  | .object members =>
      (members.foldl
        (fun found (name, value) => if name = key then some value else found)
        none)
  | _ => none

/-- The text of a string. -/
def text? : Value → Option String
  | .string text => some text
  | _ => none

end Json.Value

namespace Json

/-- The hexadecimal digit of a number below sixteen. -/
def hexDigit (value : Nat) : Char :=
  (Nat.digitChar value)

/-- Escape one character of a string. -/
def escape (character : Char) : List Char :=
  if character = '"' then
    ['\\', '"']
  else if character = '\\' then
    ['\\', '\\']
  else if character = '\x08' then
    ['\\', 'b']
  else if character = '\x0c' then
    ['\\', 'f']
  else if character = '\n' then
    ['\\', 'n']
  else if character = '\r' then
    ['\\', 'r']
  else if character = '\t' then
    ['\\', 't']
  else if character.toNat < 0x20 then
    ['\\', 'u', '0', '0', hexDigit (character.toNat / 16), hexDigit (character.toNat % 16)]
  else
    [character]

/-- A text in quotes, with the characters escaped that need it. -/
def quote (text : String) : String :=
  "\"" ++ String.ofList (text.toList.flatMap escape) ++ "\""

end Json

namespace Json.Value

mutual

/-- Write a value without any white space. -/
def render : Value → String
  | .null => "null"
  | .boolean true => "true"
  | .boolean false => "false"
  | .number spelling => spelling
  | .string text => quote text
  | .array elements => "[" ++ String.intercalate "," (renderElements elements) ++ "]"
  | .object members => "\x7b" ++ String.intercalate "," (renderMembers members) ++ "\x7d"

/-- Write each element of an array. -/
def renderElements : List Value → List String
  | [] => []
  | element :: elements => element.render :: renderElements elements

/-- Write each member of an object. -/
def renderMembers : List (String × Value) → List String
  | [] => []
  | (key, value) :: members => (quote key ++ ":" ++ value.render) :: renderMembers members

end

end Json.Value

end GrammarService
