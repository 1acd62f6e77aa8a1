import GrammarService.Network.Basic
import GrammarService.Text.Lines

namespace GrammarService

/-!
# Tokens

A token is a piece of the source text with a type, a channel and a position. Offsets and columns
count characters. The end of the input is a token too, with type `endOfInput` and no characters.
-/

/-- The channel that parsers read. -/
def defaultChannel : Int :=
  0

/-- A piece of source text that a lexer recognized. -/
structure Token where
  type : Int
  text : String
  channel : Int
  /-- The offset of the first character. -/
  start : Nat
  /-- The offset behind the last character. -/
  stop : Nat
  /-- The line of the first character, counted from 1. -/
  line : Nat
  /-- The column of the first character, counted from 0. -/
  column : Nat
  /-- The position in the token stream, once a stream has taken the token. -/
  index : Nat
  deriving Repr, DecidableEq, Inhabited

namespace Token

/-- The text of the token that ends the input. -/
def endText : String :=
  "<EOF>"

/-- The token that ends the input. -/
def ofEnd
    (offset line column : Nat) :
    Token where
  type := endOfInput
  text := endText
  channel := defaultChannel
  start := offset
  stop := offset
  line := line
  column := column
  index := 0

/-- Whether the token ends the input. -/
def isEnd (token : Token) : Bool :=
  token.type == endOfInput

/-- Whether parsers see the token: it is on their channel, or it ends the input. -/
def isVisible (token : Token) : Bool :=
  token.channel == defaultChannel || token.isEnd

/-- The text of the token as messages quote it. -/
def quoted (token : Token) : String :=
  s!"'{Text.escapeBreaks token.text}'"

end Token

/-- A place in the source where lexing or parsing failed, and why. -/
structure SyntaxError where
  line : Nat
  column : Nat
  message : String
  deriving Repr, DecidableEq, Inhabited

namespace SyntaxError

/-- The error as one line of text. -/
def render (error : SyntaxError) : String :=
  s!"line {error.line}:{error.column} {error.message}"

/-- An error at the first character of a token. -/
def atToken
    (token : Token)
    (message : String) :
    SyntaxError where
  line := token.line
  column := token.column
  message := message

end SyntaxError

end GrammarService
