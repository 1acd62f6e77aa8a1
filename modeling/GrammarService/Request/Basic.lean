import GrammarService.Json.Read
import GrammarService.Request.Header
import GrammarService.Request.Layout
import GrammarService.Text.Utf8

namespace GrammarService

/-!
# Requests

A request carries a grammar, or a lexer and a parser grammar, with a source text and the rule to
parse it by. It is read from a JSON object; a body that is none is a request without any fields.
-/

/-- A request to parse a source text. -/
structure Request where
  grammar : Option String
  lexer : Option String
  parser : Option String
  source : String
  rule : String
  deriving Repr, DecidableEq, Inhabited

namespace Request

/-- A trimmed text field of an object; a blank one counts as absent. -/
def field?
    (body : Json.Value)
    (key : String) :
    Option String :=
  match (body.get? key).bind Json.Value.text? with
  | none => none
  | some text =>
      match Text.trim text.toList with
      | [] => none
      | trimmed => some (String.ofList trimmed)

/-- The request in a JSON value. -/
def ofJson (body : Json.Value) : Request where
  grammar := field? body "grammar"
  lexer := field? body "lexer"
  parser := field? body "parser"
  source := (field? body "source").getD ""
  rule := (field? body "rule").getD ""

/-- The request in the body of a message. -/
def ofBody (body : ByteArray) : Request :=
  ofJson (((Utf8.decode? body).bind Json.read).getD .null)

/-- Why the grammars of a request cannot be used. -/
inductive ShapeError
  | grammarAndParts
  | sameNames
  | nothing
  | missingPart
  | noName
  deriving Repr, DecidableEq

namespace ShapeError

/-- The error in words. -/
def message : ShapeError → String
  | .grammarAndParts => "Provide either grammar or lexer+parser inputs, not both"
  | .sameNames => "Lexer and parser grammars must declare different names"
  | .nothing => "Missing required fields: grammar or lexer+parser"
  | .missingPart => "Missing required fields: lexer, parser"
  | .noName => "Could not determine grammar name"

end ShapeError

/-- A grammar with the name it declares. -/
structure NamedGrammar where
  name : String
  text : String
  deriving Repr, DecidableEq

/-- A grammar with the name it declares, if it declares one. -/
def nameGrammar (text : String) : Except ShapeError NamedGrammar :=
  match Header.declaredName? text with
  | some name => .ok ⟨name, text⟩
  | none => .error .noName

/-- The layout of a request's grammars, and the grammars in the order of compilation. -/
def resolve (request : Request) : Except ShapeError (Layout × List NamedGrammar) :=
  match request.grammar, request.lexer, request.parser with
  | some grammar, none, none => do
      let named ← nameGrammar grammar
      return (.unified named.name, [named])
  | some _, _, _ => .error .grammarAndParts
  | none, some lexer, some parser => do
      let lexer ← nameGrammar lexer
      let parser ← nameGrammar parser
      if lexer.name = parser.name then
        throw .sameNames
      return (.split lexer.name parser.name, [lexer, parser])
  | none, none, none => .error .nothing
  | none, _, _ => .error .missingPart

end Request

end GrammarService
