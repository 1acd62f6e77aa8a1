namespace GrammarService

/-!
# Grammar layouts

A grammar comes as one file with the rules of lexer and parser, or as two. The layout decides
which grammars are compiled, in which order, and which compiled units hold the lexer and the
parser.
-/

/-- How a grammar is laid out in files. -/
inductive Layout
  /-- One grammar for lexer and parser. -/
  | unified (name : String)
  /-- A grammar for each of them. -/
  | split (lexer parser : String)
  deriving Repr, DecidableEq, Inhabited

namespace Layout

/-- The name of the grammar as a whole. -/
def grammarName : Layout → String
  | .unified name => name
  | .split _ parser => parser

/-- The grammars in the order in which they are compiled. -/
def compilationOrder : Layout → List String
  | .unified name => [name]
  | .split lexer parser => [lexer, parser]

/-- The compiled unit that holds the lexer. -/
def lexerUnit : Layout → String
  | .unified name => name ++ "Lexer"
  | .split lexer _ => lexer

/-- The compiled unit that holds the parser. -/
def parserUnit : Layout → String
  | .unified name => name
  | .split _ parser => parser

/-- The name of the lexer. -/
def lexerName (layout : Layout) : String :=
  layout.lexerUnit

/-- The name of the parser. -/
def parserName : Layout → String
  | .unified name => name ++ "Parser"
  | .split _ parser => parser

end Layout

end GrammarService
