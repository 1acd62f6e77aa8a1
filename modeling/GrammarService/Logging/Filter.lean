import GrammarService.Text.WhiteSpace

namespace GrammarService.Logging

/-!
# Which events are logged

A filter is a list of directives, each of which gives the events of some origins a level up to which
they are logged. For an event the most specific directive counts that is about its origin. A filter
without any directive falls back to a level for all events.
-/

/-- How important an event is, the most important first. -/
inductive Level
  | error
  | warn
  | info
  | debug
  | trace
  deriving Repr, DecidableEq, Inhabited

namespace Level

/-- How many levels are as important or more. -/
def rank : Level → Nat
  | .error => 1
  | .warn => 2
  | .info => 3
  | .debug => 4
  | .trace => 5

/-- The name of the level. -/
def name : Level → String
  | .error => "ERROR"
  | .warn => "WARN"
  | .info => "INFO"
  | .debug => "DEBUG"
  | .trace => "TRACE"

end Level

/-- The rank up to which events are logged; nothing has the rank zero. -/
abbrev Threshold := Nat

namespace Threshold

/-- The threshold that lets everything pass. -/
def everything : Threshold :=
  5

/-- The names of the thresholds, in lower case. -/
def names : List (String × Threshold) :=
  [("off", 0), ("error", 1), ("warn", 2), ("info", 3), ("debug", 4), ("trace", 5)]

/-- The value of a number. -/
def number? (text : String) : Option Nat :=
  let digits := match text.toList with
    | '+' :: digits => digits
    | digits => digits
  if digits.isEmpty || !digits.all Char.isDigit then
    none
  else
    some (digits.foldl (fun value digit => 10 * value + (digit.toNat - '0'.toNat)) 0)

/-- The threshold with a name or a number. -/
def read? (text : String) : Option Threshold :=
  match number? text with
  | some number => if number ≤ everything then some number else none
  | none => names.lookup text.toLower

/-- The threshold behind an equals sign; nothing stands for everything. -/
def readBehind? (text : String) : Option Threshold :=
  if text.isEmpty then some everything else read? text

end Threshold

/-- Which events of which origins are logged. -/
structure Directive where
  /-- What the origins begin with; all origins are meant if it is missing. -/
  target : Option String
  /-- Whether only events inside of some activity are meant. -/
  isInner : Bool
  /-- The fields that an event has to have. -/
  fields : List String
  threshold : Threshold
  deriving Repr, DecidableEq, Inhabited

/-- Why a text is no directive. -/
inductive DirectiveError
  | malformed
  | unknownLevel
  deriving Repr, DecidableEq

namespace DirectiveError

/-- The error in words. -/
def message : DirectiveError → String
  | .malformed => "invalid filter directive"
  | .unknownLevel =>
      "error parsing level filter: expected one of \"off\", \"error\", \"warn\", \"info\", " ++
        "\"debug\", \"trace\", or a number 0-5"

end DirectiveError

namespace Directive

/-- Whether a directive can begin with a character. -/
def canBegin (character : Char) : Bool :=
  character.isAlphanum || character = '-' || character = ':' || character = '_' ||
    character = '[' || '\x7f' < character

/-- Read the level behind an equals sign. -/
def withLevel
    (target : Option String)
    (isInner : Bool)
    (fields : List String)
    (level : List Char) :
    Except DirectiveError Directive :=
  match Threshold.readBehind? (String.ofList level) with
  | some threshold => .ok ⟨target, isInner, fields, threshold⟩
  | none => .error .unknownLevel

/-- Read what stands behind brackets: nothing, or a level. -/
def readBehindBrackets
    (target : Option String)
    (isInner : Bool)
    (fields : List String)
    (trimmed text : List Char) :
    Except DirectiveError Directive :=
  match trimmed with
  | [] => .ok ⟨target, isInner, fields, Threshold.everything⟩
  | '=' :: _ => withLevel target isInner fields (text.drop 1)
  | _ => .error .malformed

/--
Read what stands in brackets, which is the name of an activity, a field in braces with a value or
without, or both, and what stands behind them.
-/
def readBrackets
    (target : Option String)
    (trimmed text : List Char) :
    Except DirectiveError Directive :=
  let nameLength :=
    (trimmed.takeWhile fun character => character ≠ ']' && character ≠ '\x7b').length
  let text := text.drop (nameLength + 1)
  match trimmed.drop nameLength with
  | ']' :: trimmed => readBehindBrackets target true [] trimmed text
  | '\x7b' :: trimmed =>
      let fieldLength := (trimmed.takeWhile (· ≠ '\x7d')).length
      let field := text.take fieldLength
      match fieldLength, trimmed.drop fieldLength with
      | _ + 1, '\x7d' :: ']' :: trimmed =>
          readBehindBrackets target (0 < nameLength || field.contains '=')
            [String.ofList (field.takeWhile (· ≠ '='))] trimmed (text.drop (fieldLength + 2))
      | _, _ => .error .malformed
  | _ => .error .malformed

/--
Read a directive: a level, or what it is about, with a level or without. The places of its marks are
counted without white space around it, but its parts are cut from the text as it stands.
-/
def read (directive : String) : Except DirectiveError Directive :=
  let text := directive.toList
  let trimmed := Text.trim text
  let targetLength :=
    (trimmed.takeWhile fun character => character ≠ '=' && character ≠ '[').length
  let target :=
    if targetLength = 0 then none else some (String.ofList (text.take targetLength))
  if (trimmed.head?.map canBegin).getD false then
    match trimmed.drop targetLength with
    | [] =>
        match Threshold.read? directive with
        | some threshold => .ok ⟨none, false, [], threshold⟩
        | none => .ok ⟨some directive, false, [], Threshold.everything⟩
    | '[' :: trimmed => readBrackets target trimmed (text.drop (targetLength + 1))
    | _ => withLevel target false [] (text.drop (targetLength + 1))
  else
    .error .malformed

/-- Whether an event is meant. -/
def isAbout
    (directive : Directive)
    (target : String)
    (fields : List String) :
    Bool :=
  directive.target.all (·.toList.isPrefixOf target.toList) &&
    directive.fields.all fields.contains

/-- How many bytes of the origin a directive fixes, and one more if it names an origin at all. -/
def targetSize (directive : Directive) : Nat :=
  match directive.target with
  | none => 0
  | some target => target.utf8ByteSize + 1

/--
Whether a directive counts in front of another one about the same event: the longer origin decides,
then the greater number of fields, and then the later name of a field.
-/
def isBefore (left right : Directive) : Bool :=
  right.targetSize < left.targetSize || (right.targetSize = left.targetSize &&
    (right.fields.length < left.fields.length || (right.fields.length = left.fields.length &&
      decide (right.fields < left.fields))))

end Directive

/-- The directives by which events are logged. -/
structure Filter where
  directives : List Directive
  deriving Repr, DecidableEq, Inhabited

namespace Filter

/-- The texts between commas that can be directives. -/
def parts (text : String) : List String :=
  (text.splitOn ",").filter fun part => !part.isEmpty

/-- What is said of the texts that are no directives. -/
def complaints (text : String) : List String :=
  (parts text).filterMap fun part =>
    match Directive.read part with
    | .ok _ => none
    | .error error => some s!"ignoring `{part}`: {error.message}"

/-- The filter in a text. -/
def read
    (fallback : Threshold)
    (text : String) :
    Filter :=
  match (parts text).filterMap fun part => (Directive.read part).toOption with
  | [] => ⟨[⟨none, false, [], fallback⟩]⟩
  | directives => ⟨directives⟩

/-- The directive that counts of two that are about an event: the later one if neither is in front. -/
def prefer
    (best : Option Directive)
    (directive : Directive) :
    Option Directive :=
  match best with
  | none => some directive
  | some previous => if previous.isBefore directive then some previous else some directive

/-- Whether an event is logged. -/
def lets
    (filter : Filter)
    (level : Level)
    (target : String)
    (fields : List String) :
    Bool :=
  let outer := filter.directives.filter fun directive =>
    !directive.isInner && directive.isAbout target fields
  match outer.foldl prefer none with
  | none => false
  | some directive => level.rank ≤ directive.threshold

end Filter

end GrammarService.Logging
