import GrammarService.CommandLine
import GrammarService.Logging.Event
import GrammarService.Service.Server

namespace GrammarService

/-!
# The program

The program reads its command line, sets up logging, loads its settings and serves until it is
interrupted. `Program.run` tells what such a run writes and how it ends.
-/

/-- What a run of the program leaves. -/
structure ProgramRun where
  exitCode : Nat
  /-- The texts written to standard output; each can have several lines. -/
  output : List String
  /-- The lines written to standard error. -/
  errorLines : List String
  deriving Repr, DecidableEq, Inhabited

namespace Program

/-- An event of the program itself. -/
def event
    (level : Logging.Level)
    (message : String) :
    Logging.Event :=
  ⟨level, "tusk_api", message, []⟩

/-- The event at the start of the server. -/
def starting (settings : ServerSettings) : Logging.Event :=
  { event .info "tusk API starting..." with
    fields := [("listen_address", .shown settings.listenAddress.render),
      ("session_root", .shown settings.sessionRoot),
      ("antlr_jar", .shown settings.compiler.jar)] }

/-- The events of a server that listens until it is interrupted. -/
def serving (settings : ServerSettings) : List Logging.Event :=
  [⟨.info, "tusk_app::api", s!"API server listening on {settings.listenAddress.render}.", []⟩,
    event .info "Received shutdown signal. Draining in-flight requests...",
    event .info "tusk API stopped."]

/-- The events of a server with given settings, and the exit code of the program. -/
def serve (settings : ServerSettings) : List Logging.Event × Nat :=
  match settings.sharingPolicy with
  | .error error => ([starting settings, event .error error.detailed], 1)
  | .ok _ =>
      match settings.listenAddress.checkListening with
      | .error error =>
          ([starting settings, event .error (error.toChain settings.listenAddress).detailed], 1)
      | .ok _ => (starting settings :: serving settings, 0)

/-- The events of the program behind its command line, and its exit code. -/
def events
    (temporaryFolder : String)
    (file : Option (String × Except FileError String))
    (environment : List (String × String)) :
    List Logging.Event × Nat :=
  match ServerSettings.load temporaryFolder file environment with
  | .error error =>
      ([event .error ("Failed to load configuration: " ++ error.toChain.detailed)], 1)
  | .ok settings => serve settings

/-- Run the program; `content` gives the contents of files. -/
def run
    (arguments : List String)
    (environment : List (String × String))
    (temporaryFolder : String)
    (content : String → Except FileError String) :
    ProgramRun :=
  match CommandLine.read arguments with
  | .help => ⟨0, CommandLine.helpLines, []⟩
  | .misused lines => ⟨2, [], lines⟩
  | .serve configuration =>
      let logging := Logging.Settings.ofEnvironment none environment
      let file := configuration.map fun path => (path, content path)
      let (events, exitCode) := events temporaryFolder file environment
      ⟨exitCode, logging.write events, logging.complaints⟩

end Program

end GrammarService
