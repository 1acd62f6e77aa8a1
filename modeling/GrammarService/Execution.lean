import GrammarService.Lexer.Scan
import GrammarService.Parser.Invoke

namespace GrammarService

/-!
# Executing a pair of grammars

A lexer and a parser grammar are put to work on a source text: the parser reads one of its rules
from the tokens of the lexer. `execute` says which of several faults is reported: first those that
keep the grammars from being put to work, then those in the choice of the rule, then those in the
source.
-/

/-- Why a source text was not parsed. -/
inductive ExecutionError
  | construction (error : ConstructionError)
  | noRule (rules : List String)
  | unknownRule (rule : String) (rules : List String)
  | ruleFailure (rules : List String) (error : Parser.RuleError)
  deriving Repr, DecidableEq

namespace ExecutionError

/-- The rules of the parser, as far as there was one. -/
def rules : ExecutionError → List String
  | .construction _ => []
  | .noRule rules => rules
  | .unknownRule _ rules => rules
  | .ruleFailure rules _ => rules

/-- The error as lines of text. -/
def messages : ExecutionError → List String
  | .construction error => [error.message]
  | .noRule _ => ["No rule specified"]
  | .unknownRule rule _ => [s!"Unknown rule '{rule}'"]
  | .ruleFailure _ error => error.messages

/-- The error as one text. -/
def message : ExecutionError → String
  | .ruleFailure _ error => error.message
  | error => String.intercalate "; " error.messages

end ExecutionError

/-- A source text that was parsed. -/
structure ParseOutput where
  /-- The rules of the parser. -/
  rules : List String
  /-- The parse tree as text. -/
  tree : String
  deriving Repr, DecidableEq

/-- Parse a source text by a rule of a parser, over the tokens of a lexer. -/
def execute
    (parser : ParserGrammar)
    (lexer : LexerGrammar)
    (source rule : String) :
    Except ExecutionError ParseOutput := do
  let tokens ← (Lexer.create lexer source).mapError .construction
  let start ← (Parser.create parser (TokenStream.ofSource tokens)).mapError .construction
  let rules := parser.ruleNames.toList
  if rule.isEmpty then
    throw (.noRule rules)
  if !rules.contains rule then
    throw (.unknownRule rule rules)
  let tree ← (start.invoke rule).1.mapError (.ruleFailure rules)
  return ⟨rules, tree.render parser.ruleNames⟩

end GrammarService
