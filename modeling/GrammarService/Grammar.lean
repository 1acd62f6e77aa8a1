import GrammarService.Network.Decode
import GrammarService.RecognizerData
import GrammarService.Token.Vocabulary

namespace GrammarService

/-!
# Grammars ready for use

A lexer or parser grammar is a named network with the names of its rules. Both are made from
recognizer data, which has to hold a network of the right kind.
-/

/-- Why recognizer data does not define a grammar of the wanted kind. -/
inductive GrammarError
  | invalidNetwork (grammar : String) (cause : Network.DecodeError)
  | wrongKind (grammar : String) (expected : GrammarKind)
  | ruleCountMismatch (grammar : String) (named defined : Nat)
  deriving Repr, DecidableEq

namespace GrammarError

/-- The error in words. -/
def message : GrammarError → String
  | .invalidNetwork grammar cause =>
      s!"Recognizer {grammar} has an invalid ATN: {cause.message}"
  | .wrongKind grammar expected =>
      s!"Recognizer {grammar} is not a {expected.name} grammar."
  | .ruleCountMismatch grammar named defined =>
      s!"Recognizer {grammar} names {named} rules but its ATN defines {defined}."

end GrammarError

/-- Why a grammar cannot be put to work. -/
inductive ConstructionError
  | noModes (lexer : String)
  | noRules (parser : String)
  deriving Repr, DecidableEq

namespace ConstructionError

/-- The error in words. -/
def message : ConstructionError → String
  | .noModes lexer => s!"lexer {lexer} defines no modes"
  | .noRules parser => s!"parser {parser} defines no rules"

end ConstructionError

/-- Read the network of a grammar and insist on its kind. -/
def networkOf
    (kind : GrammarKind)
    (name : String)
    (data : RecognizerData) :
    Except GrammarError Network :=
  match Network.decode data.encodedNetwork with
  | .error cause => .error (.invalidNetwork name cause)
  | .ok network =>
      if network.kind = kind then
        .ok network
      else
        .error (.wrongKind name kind)

/-- A grammar that splits text into tokens. -/
structure LexerGrammar where
  name : String
  network : Network
  ruleNames : List String
  deriving Repr, Inhabited

namespace LexerGrammar

/-- The lexer grammar that recognizer data defines. -/
def ofData
    (name : String)
    (data : RecognizerData) :
    Except GrammarError LexerGrammar := do
  let network ← networkOf .lexer name data
  return ⟨name, network, data.ruleNames⟩

end LexerGrammar

/-- A grammar that builds trees over tokens. -/
structure ParserGrammar where
  name : String
  network : Network
  ruleNames : Array String
  vocabulary : Vocabulary
  deriving Repr, Inhabited

namespace ParserGrammar

/-- The parser grammar that recognizer data defines; it names each rule of its network. -/
def ofData
    (name : String)
    (data : RecognizerData) :
    Except GrammarError ParserGrammar := do
  let network ← networkOf .parser name data
  if network.ruleCount = data.ruleNames.length then
    return {
      name := name
      network := network
      ruleNames := data.ruleNames.toArray
      vocabulary := ⟨data.literalNames.toArray, data.symbolicNames.toArray⟩ }
  else
    throw (.ruleCountMismatch name data.ruleNames.length network.ruleCount)

end ParserGrammar

end GrammarService
