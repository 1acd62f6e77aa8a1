import GrammarService.Storage.FileStore
import GrammarService.Text.Lines
import GrammarService.Text.Utf8
import GrammarService.Text.WhiteSpace

namespace GrammarService

/-!
# Running the grammar compiler

The grammar compiler is a program of its own. It is told the grammar's file and the target
language, writes what it makes of the grammar into the folder it runs in, and reports on its error
output. What it reports there are the diagnostics of the grammar; a grammar without any compiled.
-/

/-- Why the grammar compiler cannot be used. -/
inductive CompilerError
  | jarNotFound
  | notStarted (cause : FileError)
  deriving Repr, DecidableEq

/-- How the grammar compiler is run. -/
structure CompilerSettings where
  /-- The archive that holds the compiler. -/
  jar : String
  /-- The program that runs the archive. -/
  program : String
  targetLanguage : String
  /-- Whether a failure without any diagnostics counts as one. -/
  checkExitStatus : Bool
  /-- The seconds after which the compiler is stopped; zero stands for no limit. -/
  timeoutSeconds : Nat
  deriving Repr, DecidableEq

namespace CompilerSettings

/-- How the grammar compiler is run if nothing else is said. -/
def standard : CompilerSettings where
  jar := "vendor/antlr-4.13.2-complete.jar"
  program := "java"
  targetLanguage := "Java"
  checkExitStatus := true
  timeoutSeconds := 0

instance : Inhabited CompilerSettings where
  default := standard

end CompilerSettings

/-- How a run of the compiler ended. -/
inductive RunEnding
  | exited (status : Int)
  | killed
  | timedOut
  deriving Repr, DecidableEq

/-- A run of the compiler. -/
structure CompilerRun where
  ending : RunEnding
  errorOutput : ByteArray

namespace CompilerRun

/-- The lines of an output, without blank ones at the end. -/
def linesOf (output : ByteArray) : List String :=
  let lines := Text.lines (Utf8.decodeLossy output).toList
  ((lines.reverse.dropWhile fun line => line.all isWhiteSpace).reverse).map String.ofList

/-- What a run tells of the grammar. -/
def diagnostics
    (settings : CompilerSettings)
    (run : CompilerRun) :
    List String :=
  let lines := linesOf run.errorOutput
  match run.ending with
  | .timedOut => [s!"grammar compiler timed out after {settings.timeoutSeconds} seconds"]
  | .killed =>
      if lines.isEmpty && settings.checkExitStatus then
        ["grammar compiler exited with status unknown"]
      else
        lines
  | .exited status =>
      if lines.isEmpty && settings.checkExitStatus && status ≠ 0 then
        [s!"grammar compiler exited with status {status}"]
      else
        lines

end CompilerRun

/-- The arguments that make the compiler compile a grammar. -/
def CompilerSettings.arguments
    (settings : CompilerSettings)
    (grammar : String) :
    List String :=
  ["-jar", settings.jar, "-Dlanguage=" ++ settings.targetLanguage, "-no-listener", grammar ++ ".g4"]

/-- A grammar compiler: whether it can be used, and what compiling does to the stored files. -/
structure GrammarCompiler where
  check : Except CompilerError Unit
  compile : Path → String → FileStore → Except CompilerError (List String) × FileStore

/-- The grammar compiler that runs a program, which is given its arguments and a folder. -/
def GrammarCompiler.ofProgram
    (settings : CompilerSettings)
    (jarPresent : Bool)
    (program : List String → Path → FileStore → Except FileError CompilerRun × FileStore) :
    GrammarCompiler where
  check := if jarPresent then .ok () else .error .jarNotFound
  compile folder grammar store :=
    match program (settings.arguments grammar) folder store with
    | (.error cause, store) => (.error (.notStarted cause), store)
    | (.ok run, store) => (.ok (run.diagnostics settings), store)

end GrammarService
