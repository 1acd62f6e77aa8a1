import GrammarService.ErrorChain
import GrammarService.Settings.Environment
import GrammarService.Settings.Reading
import GrammarService.Storage.FileStore
import GrammarService.Text.Capital

namespace GrammarService

/-!
# Configurations

A configuration is put together from files and environment variables, the later source winning over
the earlier ones, and then read as a whole. A malformed file shows only when the configuration is
read.
-/

/-- Why there is no configuration. -/
inductive SettingsError
  | emptyPrefix
  | unreadableFile (path : String) (cause : FileError)
  | missingField (field : String) (variablePrefix : Option String)
  | wrongType (path : List String) (expected found : String)
  | unusable
  deriving Repr, DecidableEq

namespace SettingsError

/-- The error in words. -/
def message : SettingsError → String
  | .emptyPrefix => "Environment variable prefix must not be empty."
  | .unreadableFile path cause =>
      s!"Failed to read configuration file '{path}': {cause.message}"
  | .missingField field none =>
      s!"Missing field '{field}' in configuration. Try setting `{field}`."
  | .missingField field (some variablePrefix) =>
      s!"Missing field '{field}' in configuration. Try setting `{field}` or " ++
        s!"`{variablePrefix}{Text.inCapitals field}`."
  | .wrongType path expected found =>
      let field := String.intercalate "." path
      s!"Expected value for field '{field}' to be '{expected}', got '{found}' instead."
  | .unusable => "Failed to load configuration."

/-- The error with its cause. -/
def toChain : SettingsError → ErrorChain
  | .unreadableFile path cause =>
      (ErrorChain.ofMessage cause.message).withContext (message (.unreadableFile path cause))
  | error => ErrorChain.ofMessage error.message

end SettingsError

/-- The settings of some sources. -/
structure LayeredSettings where
  /-- The settings, if no source was malformed. -/
  settings : Option Setting
  /-- What the names of variables begin with that were added last. -/
  variablePrefix : Option String
  deriving Inhabited

namespace LayeredSettings

/-- The configuration without any source. -/
def empty : LayeredSettings where
  settings := some (.group [])
  variablePrefix := none

/-- Add the settings of a YAML text. -/
def addYaml
    (layers : LayeredSettings)
    (text : String) :
    LayeredSettings :=
  { layers with
    settings := do
      let settings ← layers.settings
      let later ← Setting.ofYaml? text
      return settings.merge later }

/-- Add the settings of a file, which has to be there. -/
def addFile
    (layers : LayeredSettings)
    (path : String)
    (content : Except FileError String) :
    Except SettingsError LayeredSettings :=
  match content with
  | .ok text => .ok (layers.addYaml text)
  | .error cause => .error (.unreadableFile path cause)

/-- Add the settings of a file, if there is one. -/
def addFileIfThere
    (layers : LayeredSettings)
    (content : Except FileError String) :
    LayeredSettings :=
  match content with
  | .ok text => layers.addYaml text
  | .error _ => layers

/-- What the names of variables begin with: a word in capitals and an underscore. -/
def prefixOf (word : String) : String :=
  if word.endsWith "_" then Text.inCapitals word else Text.inCapitals word ++ "_"

/-- Add the settings of the environment variables that begin with a word. -/
def addEnvironment
    (layers : LayeredSettings)
    (word : String)
    (environment : List (String × String)) :
    Except SettingsError LayeredSettings :=
  if word.isEmpty then
    .error .emptyPrefix
  else
    let variablePrefix := prefixOf word
    let later := Setting.ofEnvironment variablePrefix environment
    .ok {
      settings := layers.settings.map fun settings => settings.merge later
      variablePrefix := some variablePrefix }

/-- Read the configuration. -/
def read
    (layers : LayeredSettings)
    (reader : List (String × Setting) → Setting.Read α) :
    Except SettingsError α :=
  match layers.settings with
  | some (.group members) =>
      match reader members with
      | .ok result => .ok result
      | .error (.missing key) => .error (.missingField key layers.variablePrefix)
      | .error (.wrongType path expected found) => .error (.wrongType path expected found)
      | .error .unusable => .error .unusable
  | _ => .error .unusable

end LayeredSettings

end GrammarService
