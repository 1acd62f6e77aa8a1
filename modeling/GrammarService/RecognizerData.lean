import GrammarService.Text.WhiteSpace
import GrammarService.Text.Lines
import GrammarService.Text.Decimal

namespace GrammarService

/-!
# Recognizer data

What a compiled grammar needs to recognize input: the names of its token types, rules, channels
and modes, and its encoded network. The data is kept as text in sections. A section is a header
line, entries of one line each, and a blank line; the network is one line of integers in square
brackets, and nothing is read after it.

`RecognizerData.read` reads such a text and `RecognizerData.render` writes it.
-/

/-- The data of one lexer or parser. -/
structure RecognizerData where
  literalNames : List (Option String)
  symbolicNames : List (Option String)
  ruleNames : List String
  /-- Lexers only. -/
  channelNames : List String
  /-- Lexers only. -/
  modeNames : List String
  encodedNetwork : List Int
  deriving Repr, DecidableEq, Inhabited

namespace RecognizerData

/-- Data without any names and without a network. -/
def empty : RecognizerData where
  literalNames := []
  symbolicNames := []
  ruleNames := []
  channelNames := []
  modeNames := []
  encodedNetwork := []

/-- A section that lists names. -/
inductive Section
  | literalNames
  | symbolicNames
  | ruleNames
  | channelNames
  | modeNames
  deriving Repr, DecidableEq

namespace Section

/-- The line that opens the section. -/
def header : Section → String
  | .literalNames => "token literal names:"
  | .symbolicNames => "token symbolic names:"
  | .ruleNames => "rule names:"
  | .channelNames => "channel names:"
  | .modeNames => "mode names:"

/-- All sections that list names. -/
def all : List Section :=
  [.literalNames, .symbolicNames, .ruleNames, .channelNames, .modeNames]

/-- The section that a line opens. -/
def ofHeader? (line : List Char) : Option Section :=
  all.find? fun kind => kind.header.toList == line

end Section

/-- The line that opens the encoded network. -/
def networkHeader : String :=
  "atn:"

/-- The spelling of a token type without a name. -/
def absentName : String :=
  "null"

/-- Why a text is not recognizer data. -/
inductive ReadError
  | missingRuleNames
  | missingNetwork
  | invalidNetworkValue (value : String)
  deriving Repr, DecidableEq

namespace ReadError

/-- The error in words. -/
def message : ReadError → String
  | .missingRuleNames => "Interpreter data has no 'rule names' section."
  | .missingNetwork => "Interpreter data has no 'atn' section."
  | .invalidNetworkValue value => s!"Invalid value '{value}' in serialized ATN."

end ReadError

/-- The name that an entry gives to a token type. -/
def optionalName (entry : List Char) : Option String :=
  if String.ofList entry = absentName then
    none
  else
    some (String.ofList entry)

/-- Add an entry to the end of its section. -/
def addEntry
    (data : RecognizerData)
    (kind : Section)
    (entry : List Char) :
    RecognizerData :=
  match kind with
  | .literalNames =>
      { data with literalNames := data.literalNames ++ [optionalName entry] }
  | .symbolicNames =>
      { data with symbolicNames := data.symbolicNames ++ [optionalName entry] }
  | .ruleNames => { data with ruleNames := data.ruleNames ++ [String.ofList entry] }
  | .channelNames => { data with channelNames := data.channelNames ++ [String.ofList entry] }
  | .modeNames => { data with modeNames := data.modeNames ++ [String.ofList entry] }

/-- What the sections of a text hold. -/
structure Sections where
  data : RecognizerData
  sawRuleNames : Bool
  /-- The line after the header of the network. -/
  network : Option (List Char)
  deriving Repr, DecidableEq

/--
Read the sections of trimmed lines, while inside the section `current` or between sections.

A line that opens no section is passed over between sections and is an entry inside one.
-/
def readSections
    (current : Option Section)
    (sections : Sections) :
    List (List Char) → Sections
  | [] => sections
  | line :: rest =>
      match current with
      | some kind =>
          if line.isEmpty then
            readSections none sections rest
          else
            readSections current
              { sections with data := sections.data.addEntry kind line } rest
      | none =>
          if line = networkHeader.toList then
            { sections with network := rest.head? }
          else
            match Section.ofHeader? line with
            | some kind =>
                readSections (some kind)
                  { sections with
                    sawRuleNames := sections.sawRuleNames || kind = .ruleNames }
                  rest
            | none => readSections none sections rest

/-- The entries of an encoded network's line: what stands between commas, trimmed, if anything. -/
def networkValues (line : List Char) : List (List Char) :=
  let inner := Text.dropEndWhile (· = ']') ((Text.trim line).dropWhile (· = '['))
  ((inner.splitOn ',').map Text.trim).filter fun value => !value.isEmpty

/-- Read the integers of an encoded network's line. -/
def readNetwork (line : List Char) : Except ReadError (List Int) :=
  (networkValues line).mapM fun value =>
    match Text.int32? value with
    | some number => .ok number
    | none => .error (.invalidNetworkValue (String.ofList value))

/-- Read recognizer data from its text. -/
def read (text : String) : Except ReadError RecognizerData := do
  let lines := (Text.lines text.toList).map Text.trimEnd
  let sections := readSections none ⟨empty, false, none⟩ lines
  if !sections.sawRuleNames then
    throw .missingRuleNames
  match sections.network with
  | none => throw .missingNetwork
  | some line => return { sections.data with encodedNetwork := ← readNetwork line }

/-- The text of a section: its header, an entry a line, and a blank line. -/
def renderSection
    (kind : Section)
    (entries : List String) :
    String :=
  String.join ((kind.header :: entries).map (· ++ "\n")) ++ "\n"

/-- The entry for a token type, named or not. -/
def renderName (name : Option String) : String :=
  name.getD absentName

/-- Write recognizer data as text; sections for lexers only are left out when they are empty. -/
def render (data : RecognizerData) : String :=
  renderSection .literalNames (data.literalNames.map renderName) ++
    renderSection .symbolicNames (data.symbolicNames.map renderName) ++
    renderSection .ruleNames data.ruleNames ++
    (if data.channelNames.isEmpty then "" else renderSection .channelNames data.channelNames) ++
    (if data.modeNames.isEmpty then "" else renderSection .modeNames data.modeNames) ++
    networkHeader ++ "\n[" ++
    String.intercalate ", " (data.encodedNetwork.map fun value => toString value) ++ "]\n"

end RecognizerData

end GrammarService
