import GrammarService.Parser.Run

namespace GrammarService

/-!
# Parsing with a grammar

A `Parser` reads rules of a grammar from a token stream. What prediction learns is kept from one
rule to the next, and so are the tokens taken from the source.
-/

/-- A grammar at work on a token stream. -/
structure Parser (σ : Type) where
  grammar : ParserGrammar
  tokens : TokenStream σ
  cache : PredictionCache

namespace Parser

/-- Why a rule gave no tree. -/
inductive RuleError
  | unknownRule (rule : String)
  | syntaxErrors (errors : List SyntaxError)
  | fault (fault : Fault)
  deriving Repr, DecidableEq

namespace RuleError

/-- The error as lines of text. -/
def messages : RuleError → List String
  | .unknownRule rule => [s!"Unknown rule '{rule}'"]
  | .syntaxErrors errors => errors.map SyntaxError.render
  | .fault cause => [cause.message]

/-- The error as one text. -/
def message (error : RuleError) : String :=
  String.intercalate "; " error.messages

end RuleError

variable {σ : Type} [TokenSource σ]

/-- A parser that has not read anything yet. -/
def ofStream
    (grammar : ParserGrammar)
    (tokens : TokenStream σ) :
    Parser σ where
  grammar := grammar
  tokens := tokens
  cache := PredictionCache.initial grammar.network

/-- A parser that has not read anything yet, for a grammar that has a rule. -/
def create
    (grammar : ParserGrammar)
    (tokens : TokenStream σ) :
    Except ConstructionError (Parser σ) :=
  if grammar.network.ruleCount = 0 then
    .error (.noRules grammar.name)
  else
    .ok (ofStream grammar tokens)

/-- The result of a walk: errors of the token source come before the walk's own. -/
def resultOf
    (errors : List SyntaxError)
    (nodes : Array ParseTree.RuleNode) :
    Except Failure Nat → Except RuleError ParseTree
  | .ok root => if errors.isEmpty then .ok ⟨nodes, root⟩ else .error (.syntaxErrors errors)
  | .error (.syntaxError error) => .error (.syntaxErrors (errors ++ [error]))
  | .error (.fault cause) => .error (.fault cause)

/-- Parse the rule with the given number from the first token on. -/
def invokeNumber
    (parser : Parser σ)
    (rule : Nat) :
    Except RuleError ParseTree × Parser σ :=
  let (outcome, run) :=
    (parseRule parser.grammar rule).run.run (Run.start parser.tokens parser.cache)
  let (errors, tokens) := run.tokens.takeErrors
  (resultOf errors run.nodes outcome, { parser with tokens := tokens, cache := run.cache })

/-- Parse the named rule from the first token on. -/
def invoke
    (parser : Parser σ)
    (rule : String) :
    Except RuleError ParseTree × Parser σ :=
  match parser.grammar.ruleNames.findIdx? (· == rule) with
  | none => (.error (.unknownRule rule), parser)
  | some number => parser.invokeNumber number

end Parser

end GrammarService
