import GrammarService.Service.Program

/-!
# The executable

Gathers what a run of the program depends on, and writes what the run leaves. Connections are not
part of it: the server counts as interrupted as soon as it listens.
-/

namespace GrammarService.Program

/-- The name and the value of a variable. -/
def splitVariable (entry : String) : Option (String × String) :=
  match entry.toList.span (· ≠ '=') with
  | (name, '=' :: value) => some (String.ofList name, String.ofList value)
  | _ => none

/-- The variables in the record that the system keeps of them. -/
def variablesOf (record : ByteArray) : List (String × String) :=
  ((Utf8.decodeLossy record).splitOn "\x00").filterMap splitVariable

/-- The cause of a failure to read a file. -/
def causeOf : IO.Error → FileError
  | .alreadyExists .. => .alreadyExists
  | .inappropriateType .. => .isAFolder
  | .invalidArgument .. => .nameInvalid
  | _ => .notFound

/-- The text of a file. -/
def contentOf (path : String) : IO (Except FileError String) :=
  try
    let bytes ← IO.FS.readBinFile path
    match Utf8.decode? bytes with
    | some text => return .ok text
    | none => return .error .notText
  catch error =>
    return .error (causeOf error)

/-- The variables of the environment. -/
def environment : IO (List (String × String)) :=
  try
    return variablesOf (← IO.FS.readBinFile "/proc/self/environ")
  catch _ =>
    return []

end GrammarService.Program

open GrammarService in
/-- Run the program. -/
def main (arguments : List String) : IO UInt32 := do
  let environment ← Program.environment
  let contents ← arguments.mapM fun path => return (path, ← Program.contentOf path)
  let temporaryFolder := (environment.lookup "TMPDIR").getD "/tmp"
  let content := fun path => (contents.lookup path).getD (.error .notFound)
  let run := Program.run arguments environment temporaryFolder content
  run.output.forM IO.println
  run.errorLines.forM IO.eprintln
  return run.exitCode.toUInt32
