import GrammarService.Request.Handling

namespace GrammarService

/-!
# A site

A site is where requests are handled: it has a folder for sessions, a grammar compiler, and the
registry that all requests share. `Site.perform` says what the calls of a request do to its stored
files and its registry.
-/

/-- What stays the same at a site. -/
structure Site where
  /-- The folder in which sessions are created. -/
  sessionRoot : Path
  retainSessions : Bool
  compiler : GrammarCompiler

namespace Site

/-- What requests change at a site. -/
structure State where
  files : FileStore
  registry : Registry
  /-- The random suffixes that are left for sessions. -/
  suffixes : List String
  deriving Inhabited

/-- Create a session with the next suffix. -/
def createSession
    (site : Site)
    (state : State) :
    Except SessionError Session × State :=
  match state.suffixes with
  | [] => (.error .noName, state)
  | suffix :: suffixes =>
      match Session.create state.files site.sessionRoot site.retainSessions suffix with
      | .error error => (.error error, { state with suffixes := suffixes })
      | .ok (session, files) => (.ok session, { state with files := files, suffixes := suffixes })

/-- What calls of a request do at a site. -/
def perform (site : Site) : Dialogue.Handler Request.Call.Answer State
  | .checkCompiler, state => (site.compiler.check, state)
  | .createSession, state => site.createSession state
  | .writeGrammar session grammar, state =>
      match session.writeGrammar state.files grammar.name grammar.text with
      | .error error => (.error error, state)
      | .ok (_, files) => (.ok (), { state with files := files })
  | .compile session grammar, state =>
      let (result, files) := site.compiler.compile session.folder grammar state.files
      (result, { state with files := files })
  | .load session layout, state =>
      let (result, registry) :=
        (Artifacts.load state.files session.folder layout).run Registry.perform state.registry
      (result, { state with registry := registry })
  | .execute artifacts source rule, state =>
      let released := (Artifacts.release artifacts.identities).run Registry.perform state.registry
      (execute artifacts.parser artifacts.lexer source rule, { state with registry := released.2 })
  | .close session, state => ((), { state with files := session.close state.files })

/-- The status and the response a site gives to a request, and what the request changes. -/
def respond
    (site : Site)
    (state : State)
    (request : Request) :
    (Nat × Response) × State :=
  let (outcome, state) := request.handle.run site.perform state
  (outcome.reply, state)

end Site

end GrammarService
