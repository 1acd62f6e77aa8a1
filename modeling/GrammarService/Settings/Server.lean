import GrammarService.Compiler.Run
import GrammarService.Http.Cors
import GrammarService.Settings.Layers
import GrammarService.Settings.SocketAddress
import GrammarService.Text.WhiteSpace

namespace GrammarService

/-!
# Settings of the server

Where the server listens, where it keeps sessions, which origins may use it, and how it runs the
grammar compiler. All of it has a standard, so an empty configuration is enough.
-/

/-- The settings of the server. -/
structure ServerSettings where
  listenAddress : SocketAddress
  sessionRoot : String
  retainSessions : Bool
  /-- The allowed origins as they were given. -/
  givenOrigins : List String
  compiler : CompilerSettings
  deriving Repr, DecidableEq, Inhabited

namespace ServerSettings

/-- The settings of a server about which nothing is said. -/
def standard (temporaryFolder : String) : ServerSettings where
  listenAddress := ⟨.version4 [0, 0, 0, 0], 5000⟩
  sessionRoot := temporaryFolder
  retainSessions := false
  givenOrigins := []
  compiler := .standard

/-- Read a path. -/
def asPath : Setting → Setting.Read String :=
  Setting.asText "path string"

/-- Read a socket address. -/
def asAddress (setting : Setting) : Setting.Read SocketAddress := do
  let text ← setting.asText "socket address"
  match SocketAddress.read? text with
  | some address => return address
  | none => throw .unusable

/-- Read origins: a text with commas between them, or a list. -/
def asOrigins : Setting → Setting.Read (List String)
  | .nothing => .ok []
  | .string content => .ok ((content.toList.splitOn ',').map String.ofList)
  | .list elements =>
      (Setting.readElements (Setting.asText "a string") 0 elements).mapError fun _ => .unusable
  | _ => .error .unusable

/-- Read one setting of the grammar compiler. -/
def readCompilerMember
    (settings : CompilerSettings)
    (key : String)
    (setting : Setting) :
    Setting.Read CompilerSettings := do
  match key with
  | "antlr_jar" => return { settings with jar := ← asPath setting }
  | "java_bin" => return { settings with program := ← asPath setting }
  | "target_language" => return { settings with targetLanguage := ← setting.asText "a string" }
  | "check_exit_status" => return { settings with checkExitStatus := ← setting.asBoolean }
  | "compile_timeout_secs" =>
      let seconds ← setting.asInteger "u64" 0 Setting.maxUnsigned64
      return { settings with timeoutSeconds := seconds.toNat }
  | _ => return settings

/--
Read one setting of the server itself. It is read in its place, except for the origins, which are
kept until their form is known; settings of the grammar compiler are kept as well.
-/
def readMember
    (settings : ServerSettings)
    (key : String)
    (setting : Setting) :
    Setting.Read ServerSettings := do
  match key with
  | "listen_address" => return { settings with listenAddress := ← asAddress setting.spelledOut }
  | "session_root" => return { settings with sessionRoot := ← asPath setting.spelledOut }
  | "retain_sessions" =>
      return { settings with retainSessions := ← setting.spelledOut.asBoolean }
  | "cors_allowed_origins" =>
      setting.checkKept
      return { settings with givenOrigins := ← asOrigins setting }
  | _ =>
      setting.checkKept
      return settings

/-- Read all settings: those of the server itself first, then those of the grammar compiler. -/
def readMembers
    (temporaryFolder : String)
    (members : List (String × Setting)) :
    Setting.Read ServerSettings := do
  let settings ← Setting.readMembers readMember (standard temporaryFolder) members
  let compiler ←
    (Setting.readMembers readCompilerMember settings.compiler members).mapError
      ReadingError.withoutPath
  return { settings with compiler := compiler }

/-- What the names of the variables begin with that hold settings of the server. -/
def variableWord : String :=
  "TUSK"

/-- The settings of the server in a file, if one is named, and in environment variables. -/
def load
    (temporaryFolder : String)
    (file : Option (String × Except FileError String))
    (environment : List (String × String)) :
    Except SettingsError ServerSettings := do
  let layers ←
    match file with
    | some (path, content) => LayeredSettings.empty.addFile path content
    | none => pure LayeredSettings.empty
  let layers ← layers.addEnvironment variableWord environment
  layers.read (readMembers temporaryFolder)

/-- The allowed origins, without blank ones; if there is none, all origins are allowed. -/
def allowedOrigins (settings : ServerSettings) : List String :=
  (settings.givenOrigins.map fun origin => String.ofList (Text.trim origin.toList)).filter (· ≠ "")

/-- What pages of other origins are allowed, unless an origin cannot be part of a header. -/
def sharingPolicy (settings : ServerSettings) : Except ErrorChain Http.SharingPolicy :=
  match settings.allowedOrigins.find? fun origin => !Http.isHeaderValue origin with
  | some origin =>
      .error ((ErrorChain.ofMessage "failed to parse header value").withContext
        s!"Invalid CORS origin '{origin}'.")
  | none => .ok ⟨settings.allowedOrigins, "POST", "content-type"⟩

end ServerSettings

end GrammarService
