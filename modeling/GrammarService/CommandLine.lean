namespace GrammarService

/-!
# The command line

The server takes the path of a configuration file, or nothing, and can be asked for help. Arguments
are read one by one; the first that is not understood is reported with the usage.
-/

/-- What the command line asks for. -/
inductive CommandLine
  | serve (configuration : Option String)
  | help
  | misused (lines : List String)
  deriving Repr, DecidableEq, Inhabited

namespace CommandLine

/-- The usage of the program with a notation for its argument. -/
def usage (argument : String) : String :=
  "Usage: tusk-api " ++ argument

/-- The help of the program. -/
def helpLines : List String :=
  ["Compiles grammars and parses source text on request.", "", usage "[CONFIG]", "", "Arguments:",
    "  [CONFIG]  Path to a YAML configuration file. Environment variables prefixed with " ++
      "`TUSK_` take precedence over it",
    "", "Options:", "  -h, --help  Print help"]

/-- The lines of a report that ends with a pointer to the help. -/
def report (lines : List String) : CommandLine :=
  .misused (lines ++ ["", "For more information, try '--help'."])

/-- The report of an argument that has no place; one that looks like an option might be a value. -/
def unexpected
    (argument : String)
    (mightBeValue : Bool)
    (argumentForm : String) :
    CommandLine :=
  let tip :=
    if mightBeValue then
      ["", s!"  tip: to pass '{argument}' as a value, use '-- {argument}'"]
    else
      []
  report ([s!"error: unexpected argument '{argument}' found"] ++ tip ++ ["", usage argumentForm])

/-- What is asked for once the arguments in front were read: an empty path is not accepted. -/
def settle
    (configuration : Option String)
    (result : CommandLine) :
    CommandLine :=
  if configuration = some "" then
    report ["error: a value is required for '[CONFIG]' but none was supplied"]
  else
    result

/-- Read an argument that begins with two dashes; nothing is the result if it is understood. -/
def ofLongOption
    (configuration : Option String)
    (option : List Char) :
    CommandLine :=
  let name := String.ofList (option.takeWhile (· ≠ '='))
  match option.dropWhile (· ≠ '=') with
  | '=' :: value =>
      if name = "--help" then
        report [s!"error: unexpected value '{String.ofList value}' for '--help' found; " ++
          "no more were expected", "", usage "--help [CONFIG]"]
      else
        unexpected name true (if configuration.isSome then "<CONFIG>" else "[CONFIG]")
  | _ =>
      if name = "--help" then
        settle configuration .help
      else
        unexpected name true (if configuration.isSome then "<CONFIG>" else "[CONFIG]")

/-- Read arguments behind those that gave a path or not; behind two dashes all are values. -/
def readFrom
    (configuration : Option String)
    (onlyValues : Bool) :
    List String → CommandLine
  | [] => settle configuration (.serve configuration)
  | argument :: arguments =>
      match onlyValues, argument.toList with
      | false, ['-', '-'] => readFrom configuration true arguments
      | false, '-' :: '-' :: option => ofLongOption configuration ('-' :: '-' :: option)
      | false, '-' :: letter :: _ =>
          if letter = 'h' then
            settle configuration .help
          else
            unexpected (String.ofList ['-', letter]) true "[CONFIG]"
      | _, _ =>
          if configuration.isSome then
            unexpected argument false "[CONFIG]"
          else
            readFrom (some argument) onlyValues arguments

/-- Read the arguments of the program. -/
def read (arguments : List String) : CommandLine :=
  readFrom none false arguments

end CommandLine

end GrammarService
