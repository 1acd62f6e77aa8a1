import GrammarService.Artifact.Registry
import GrammarService.Request.Layout
import GrammarService.Storage.FileStore
import GrammarService.Text.Utf8

namespace GrammarService

/-!
# Loading compiled grammars

A compiled grammar leaves recognizer data for its lexer and its parser in a folder. Both are read,
the parser's first, made into grammars, and registered for as long as they are in use.
-/

/-- Why compiled grammars could not be loaded. -/
inductive ArtifactError
  | notRead (file : String) (cause : FileError)
  | malformed (file : String) (cause : RecognizerData.ReadError)
  | invalidGrammar (file : String) (cause : GrammarError)
  | notResolved (name : String)
  /-- No identity was left for a grammar. -/
  | noIdentity
  deriving Repr, DecidableEq

/-- A lexer and a parser grammar, and the identities they are registered under. -/
structure Artifacts where
  lexer : LexerGrammar
  parser : ParserGrammar
  identities : List Identity
  deriving Inhabited

namespace Artifacts

/-- Grammars that are not registered. -/
def unregistered
    (lexer : LexerGrammar)
    (parser : ParserGrammar) :
    Artifacts where
  lexer := lexer
  parser := parser
  identities := []

/-- The name of the file that holds a compiled unit. -/
def unitFile (name : String) : String :=
  name ++ ".interp"

/-- The recognizer data in a compiled unit. -/
def readUnit
    (store : FileStore)
    (folder : Path)
    (name : String) :
    Except ArtifactError RecognizerData := do
  let file := unitFile name
  let bytes ← (store.fileContent folder file).mapError (.notRead file)
  match Utf8.decode? bytes with
  | none => throw (.notRead file .notText)
  | some text => (RecognizerData.read text).mapError (.malformed file)

/-- The grammars of a compiled layout. -/
def readGrammars
    (store : FileStore)
    (folder : Path)
    (layout : Layout) :
    Except ArtifactError (ParserGrammar × LexerGrammar) := do
  let parserData ← readUnit store folder layout.parserUnit
  let lexerData ← readUnit store folder layout.lexerUnit
  let parser ←
    (ParserGrammar.ofData layout.parserName parserData).mapError
      (.invalidGrammar (unitFile layout.parserUnit))
  let lexer ←
    (LexerGrammar.ofData layout.lexerName lexerData).mapError
      (.invalidGrammar (unitFile layout.lexerUnit))
  return (parser, lexer)

/-- A dialogue with the registry. -/
abbrev Enrolment := Dialogue Registry.Call.Answer

/-- Release identities. -/
def release : List Identity → Enrolment Unit
  | [] => .done ()
  | identity :: identities =>
      .ask (.release identity) fun _ => release identities

/-- Release what was registered so far and give up. -/
def giveUp
    (registered : List Identity)
    (error : ArtifactError) :
    Enrolment (Except ArtifactError Artifacts) := do
  release registered
  return .error error

/-- Take a pair of registered grammars from the registry for use. -/
def resolvePair
    (parserIdentity lexerIdentity : Identity)
    (parserName lexerName : String) :
    Enrolment (Except ArtifactError Artifacts) :=
  let identities := [parserIdentity, lexerIdentity]
  .ask (.resolve parserIdentity parserName) fun
    | some (.parser parser) =>
        .ask (.resolve lexerIdentity lexerName) fun
          | some (.lexer lexer) => .done (.ok ⟨lexer, parser, identities⟩)
          | _ => giveUp identities (.notResolved lexerName)
    | _ => giveUp identities (.notResolved parserName)

/-- Register the lexer of a pair whose parser is registered, and take both for use. -/
def enrolLexer
    (parserIdentity : Identity)
    (parserName : String)
    (lexer : LexerGrammar) :
    Enrolment (Except ArtifactError Artifacts) :=
  .ask (.register (.lexer lexer)) fun
    | none => giveUp [parserIdentity] .noIdentity
    | some lexerIdentity => resolvePair parserIdentity lexerIdentity parserName lexer.name

/-- Register a pair of grammars, the parser first, and take both for use. -/
def enrol
    (parser : ParserGrammar)
    (lexer : LexerGrammar) :
    Enrolment (Except ArtifactError Artifacts) :=
  .ask (.register (.parser parser)) fun
    | none => .done (.error .noIdentity)
    | some parserIdentity => enrolLexer parserIdentity parser.name lexer

/-- Load the grammars of a compiled layout from a folder. -/
def load
    (store : FileStore)
    (folder : Path)
    (layout : Layout) :
    Enrolment (Except ArtifactError Artifacts) :=
  match readGrammars store folder layout with
  | .error error => .done (.error error)
  | .ok (parser, lexer) => enrol parser lexer

end Artifacts

end GrammarService
