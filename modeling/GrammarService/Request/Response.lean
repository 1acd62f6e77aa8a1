import GrammarService.Artifact.Load
import GrammarService.Compiler.Run
import GrammarService.Execution
import GrammarService.Json.Basic
import GrammarService.Request.Basic
import GrammarService.Storage.Session

namespace GrammarService

/-!
# Responses

A response names the grammar and holds the parser's rules with either the parse tree or the errors,
as far as the request came. `RequestFailure` lists what can stop a request, with the status and the
errors each of them is reported with.
-/

/-- The response to a request. -/
structure Response where
  grammarName : String
  errors : List String
  rules : List String
  tree : String
  deriving Repr, DecidableEq

namespace Response

/-- The response of a request that came nowhere. -/
def empty : Response where
  grammarName := ""
  errors := []
  rules := []
  tree := ""

/-- The response as a JSON value. -/
def toJson (response : Response) : Json.Value :=
  .object [("grammar_name", .string response.grammarName),
    ("errors", .array (response.errors.map .string)),
    ("rules", .array (response.rules.map .string)),
    ("string_tree", .string response.tree)]

end Response

/-- What stopped a request. -/
inductive RequestFailure
  | shape (error : Request.ShapeError)
  | compilerUnavailable (cause : CompilerError)
  | storageUnavailable (cause : SessionError)
  | notWritten (cause : SessionError)
  | notCompiled (diagnostics : List String)
  | notLoaded (cause : ArtifactError)
  | notExecuted (error : ExecutionError)
  deriving Repr, DecidableEq

namespace RequestFailure

/-- The HTTP status a failure is reported with. -/
def status : RequestFailure → Nat
  | .shape _ => 400
  | .compilerUnavailable _ => 500
  | .storageUnavailable _ => 500
  | .notWritten _ => 500
  | .notCompiled _ => 400
  | .notLoaded _ => 500
  | .notExecuted (.construction _) => 400
  | .notExecuted (.noRule _) => 200
  | .notExecuted (.unknownRule _ _) => 200
  | .notExecuted (.ruleFailure _ _) => 400

/-- The errors that a failure is reported as. -/
def messages : RequestFailure → List String
  | .shape error => [error.message]
  | .compilerUnavailable _ => ["ANTLR jar not found on server"]
  | .storageUnavailable _ => ["Failed to create session directory"]
  | .notWritten _ => ["Failed to write grammar file"]
  | .notCompiled diagnostics => diagnostics
  | .notLoaded _ => ["Failed to load generated modules"]
  | .notExecuted error => error.messages

end RequestFailure

end GrammarService
