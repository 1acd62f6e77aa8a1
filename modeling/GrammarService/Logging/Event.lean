import GrammarService.Json.Basic
import GrammarService.Logging.Filter
import GrammarService.Text.Escaped
import GrammarService.Text.WhiteSpace

namespace GrammarService.Logging

/-!
# Events and how they are written

An event is a message of some level and origin with named values. It is written as a line of text or
as a JSON object.
-/

/-- A value that belongs to an event. -/
inductive Value
  | integer (value : Int)
  | text (content : String)
  /-- A value that is written as it shows itself, without quotes. -/
  | shown (content : String)
  deriving Repr, DecidableEq, Inhabited

/-- Something that happened. -/
structure Event where
  level : Level
  target : String
  message : String
  fields : List (String × Value)
  deriving Repr, DecidableEq, Inhabited

/-- How events are written. -/
inductive Format
  | line
  | object
  deriving Repr, DecidableEq, Inhabited

namespace Value

/-- The value in a line of text. -/
def inLine : Value → String
  | .integer value => toString value
  | .text content => Text.quoted content
  | .shown content => content

/-- The value in a JSON object. -/
def toJson : Value → Json.Value
  | .integer value => .number (toString value)
  | .text content => .string content
  | .shown content => .string content

end Value

/-- A character of a message; those that control a terminal are spelled out. -/
def escapeControl (character : Char) : List Char :=
  if character = '\x1b' then
    "\\x1b".toList
  else if character = '\x07' then
    "\\x07".toList
  else if character = '\x08' then
    "\\x08".toList
  else if character = '\x0c' then
    "\\x0c".toList
  else if character = '\x7f' then
    "\\x7f".toList
  else if '\x80' ≤ character && character ≤ '\x9f' then
    ['\\', 'u', '\x7b'] ++ Nat.toDigits 16 character.toNat ++ ['\x7d']
  else
    [character]

namespace Event

/-- The names of what an event holds. -/
def fieldNames (event : Event) : List String :=
  "message" :: event.fields.map Prod.fst

/-- The event as text, which can have several lines. -/
def toText (event : Event) : String :=
  let message := String.ofList (event.message.toList.flatMap escapeControl)
  let fields := event.fields.map fun (name, value) => " " ++ name ++ "=" ++ value.inLine
  event.level.name ++ " " ++ event.target ++ ": " ++ message ++ String.join fields

/-- The event as a JSON object. -/
def toJson (event : Event) : Json.Value :=
  .object ([("level", .string event.level.name), ("message", .string event.message)] ++
    event.fields.map (fun (name, value) => (name, value.toJson)) ++
    [("target", .string event.target)])

/-- The event as it is written. -/
def render
    (format : Format)
    (event : Event) :
    String :=
  match format with
  | .line => event.toText
  | .object => event.toJson.render

end Event

/-- How a program logs. -/
structure Settings where
  filter : Filter
  format : Format
  /-- What is to be said of the directives that cannot be read. -/
  complaints : List String
  deriving Repr, DecidableEq, Inhabited

namespace Settings

/-- The variable with the directives of the filter. -/
def filterVariable : String :=
  "TUSK_LOG_LEVEL"

/-- The variable that asks for JSON objects. -/
def formatVariable : String :=
  "TUSK_LOG_FORMAT_JSON"

/-- Whether a text says yes. -/
def isTrue (text : String) : Bool :=
  let word := (String.ofList (Text.trim text.toList)).toLower
  word = "true" || word = "1"

/-- How a program logs by the environment, with a level for when nothing is said of levels. -/
def ofEnvironment
    (fallback : Option Threshold)
    (environment : List (String × String)) :
    Settings :=
  let directives := (environment.lookup filterVariable).getD ""
  { filter := Filter.read (fallback.getD Level.info.rank) directives
    format := if (environment.lookup formatVariable).any isTrue then .object else .line
    complaints := Filter.complaints directives }

/-- What is written of events. -/
def write
    (settings : Settings)
    (events : List Event) :
    List String :=
  (events.filter fun event =>
    settings.filter.lets event.level event.target event.fieldNames).map
      (Event.render settings.format)

/-- The last words of a program that cannot go on. -/
def fatal (message : String) : String :=
  "FATAL: " ++ message

/-- What is said when a program that logs already is told again how to log. -/
def alreadySet : String :=
  "Failed to install logging subscriber: a global default trace dispatcher has already been set"

end Settings

end GrammarService.Logging
