import GrammarService.Dialogue
import GrammarService.Request.Response

namespace GrammarService

/-!
# Handling a request

Handling a request is a dialogue with what a request needs: the grammar compiler, the storage of
sessions, the loading of compiled grammars and the execution of loaded ones. The first failure ends
it, and a session that was created is closed whatever happened in it.
-/

namespace Request

/-- A call that handling a request makes. -/
inductive Call
  | checkCompiler
  | createSession
  | writeGrammar (session : Session) (grammar : NamedGrammar)
  | compile (session : Session) (grammar : String)
  | load (session : Session) (layout : Layout)
  | execute (artifacts : Artifacts) (source rule : String)
  | close (session : Session)

namespace Call

/-- What is answered to a call. -/
abbrev Answer : Call → Type
  | .checkCompiler => Except CompilerError Unit
  | .createSession => Except SessionError Session
  | .writeGrammar _ _ => Except SessionError Unit
  | .compile _ _ => Except CompilerError (List String)
  | .load _ _ => Except ArtifactError Artifacts
  | .execute _ _ _ => Except ExecutionError ParseOutput
  | .close _ => Unit

end Call

/-- A dialogue with what a request needs. -/
abbrev Handling := Dialogue Call.Answer

/-- The end of a request: its response so far, and what stopped it. -/
structure Outcome where
  response : Response
  failure : Option RequestFailure
  deriving Repr, DecidableEq

namespace Outcome

/-- A request that was stopped. -/
def stopped
    (grammarName : String)
    (failure : RequestFailure) :
    Outcome where
  response := { Response.empty with grammarName := grammarName }
  failure := some failure

/-- The end of a request whose grammars were executed. -/
def ofExecution
    (grammarName : String) :
    Except ExecutionError ParseOutput → Outcome
  | .ok output => ⟨⟨grammarName, [], output.rules, output.tree⟩, none⟩
  | .error error =>
      ⟨{ Response.empty with grammarName := grammarName, rules := error.rules },
        some (.notExecuted error)⟩

/-- The HTTP status and the response that a request ends with. -/
def reply (outcome : Outcome) : Nat × Response :=
  match outcome.failure with
  | none => (200, outcome.response)
  | some failure =>
      (failure.status, { outcome.response with errors := failure.messages })

end Outcome

/-- Write each grammar into a session, and go on if all of them were written. -/
def writeAll
    (session : Session)
    (grammarName : String)
    (following : Handling Outcome) :
    List NamedGrammar → Handling Outcome
  | [] => following
  | grammar :: grammars =>
      .ask (.writeGrammar session grammar) fun
        | .error cause => .done (.stopped grammarName (.notWritten cause))
        | .ok _ => writeAll session grammarName following grammars

/-- Compile grammars in order, and go on if all of them compiled. -/
def compileAll
    (session : Session)
    (grammarName : String)
    (following : Handling Outcome) :
    List String → Handling Outcome
  | [] => following
  | grammar :: grammars =>
      .ask (.compile session grammar) fun
        | .error cause => .done (.stopped grammarName (.compilerUnavailable cause))
        | .ok [] => compileAll session grammarName following grammars
        | .ok diagnostics => .done (.stopped grammar (.notCompiled diagnostics))

/-- Load the compiled grammars of a session and execute them. -/
def loadAndExecute
    (request : Request)
    (session : Session)
    (layout : Layout) :
    Handling Outcome :=
  .ask (.load session layout) fun
    | .error cause => .done (.stopped layout.grammarName (.notLoaded cause))
    | .ok artifacts =>
        .ask (.execute artifacts request.source request.rule) fun result =>
          .done (.ofExecution layout.grammarName result)

/-- Handle a request in its session. -/
def handleInSession
    (request : Request)
    (session : Session)
    (layout : Layout)
    (grammars : List NamedGrammar) :
    Handling Outcome :=
  writeAll session layout.grammarName
    (compileAll session layout.grammarName
      (loadAndExecute request session layout)
      layout.compilationOrder)
    grammars

/-- Handle a request in a new session, and close the session. -/
def handleGrammars
    (request : Request)
    (layout : Layout)
    (grammars : List NamedGrammar) :
    Handling Outcome :=
  .ask .createSession fun
    | .error cause => .done (.stopped layout.grammarName (.storageUnavailable cause))
    | .ok session =>
        (request.handleInSession session layout grammars).andThen fun outcome =>
          .ask (.close session) fun _ => .done outcome

/-- Handle a request. -/
def handle (request : Request) : Handling Outcome :=
  match request.resolve with
  | .error error => .done (.stopped "" (.shape error))
  | .ok (layout, grammars) =>
      .ask .checkCompiler fun
        | .error cause => .done (.stopped layout.grammarName (.compilerUnavailable cause))
        | .ok _ => request.handleGrammars layout grammars

end Request

end GrammarService
