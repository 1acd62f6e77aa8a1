import GrammarService.Text.Lines

namespace GrammarService

/-!
# Chains of errors

An error that is only reported is a chain of texts: each tells what could not be done because of
the next. The first text is the newest.
-/

/-- An error with what caused it. -/
structure ErrorChain where
  message : String
  /-- What caused the error, the next cause first. -/
  causes : List String
  deriving Repr, DecidableEq, Inhabited

namespace ErrorChain

/-- An error without a cause. -/
def ofMessage (message : String) : ErrorChain where
  message := message
  causes := []

/-- The error that another one caused. -/
def withContext
    (context : String)
    (error : ErrorChain) :
    ErrorChain where
  message := context
  causes := error.message :: error.causes

/-- All texts of the chain. -/
def texts (error : ErrorChain) : List String :=
  error.message :: error.causes

/-- The text at the end of the chain. -/
def root (error : ErrorChain) : String :=
  error.causes.getLast?.getD error.message

/-- The chain in one line. -/
def joined (error : ErrorChain) : String :=
  String.intercalate ": " error.texts

/-- Put `first` in front of a text and `further` in front of its further lines. -/
def indented
    (first further text : String) :
    String :=
  first ++ String.intercalate ("\n" ++ further) (text.splitOn "\n")

/-- The lines that list several causes by number. -/
def numbered
    (number : Nat) :
    List String → List String
  | [] => []
  | cause :: causes =>
      let label := toString number
      let blanks := String.ofList (List.replicate (5 - label.length) ' ')
      indented (blanks ++ label ++ ": ") "       " cause :: numbered (number + 1) causes

/-- The error and below it the list of its causes. -/
def detailed (error : ErrorChain) : String :=
  match error.causes with
  | [] => error.message
  | [cause] => error.message ++ "\n\nCaused by:\n" ++ indented "    " "    " cause
  | causes => error.message ++ "\n\nCaused by:\n" ++ String.intercalate "\n" (numbered 0 causes)

/-- Give a context to the error of a result; the context is not made for any other result. -/
def addContext
    (result : Except ErrorChain α)
    (context : Unit → String) :
    Except ErrorChain α :=
  result.mapError fun error => error.withContext (context ())

/-- The value, or an error that tells what is missing; the text is not made if there is a value. -/
def ofOption
    (value : Option α)
    (missing : Unit → String) :
    Except ErrorChain α :=
  match value with
  | some value => .ok value
  | none => .error (ofMessage (missing ()))

end ErrorChain

end GrammarService
