import GrammarService.Token.Source

namespace GrammarService

/-!
# Token streams

A stream takes tokens from a source when they are first asked for, numbers them, and keeps them.
It takes none after the end of the input. Parsers look at visible tokens only, while the text of
a range of tokens includes the hidden ones.
-/

/-- The tokens taken from a source so far. -/
structure TokenStream (σ : Type) where
  source : σ
  tokens : Array Token
  /-- Whether the end of the input was taken. -/
  ended : Bool

namespace TokenStream

variable {σ : Type} [TokenSource σ]

/-- A stream that has not taken a token yet. -/
def ofSource (source : σ) : TokenStream σ where
  source := source
  tokens := #[]
  ended := false

/-- Take up to `count` tokens, and none after the end. -/
def pull : (count : Nat) → TokenStream σ → TokenStream σ
  | 0, stream => stream
  | count + 1, stream =>
      if stream.ended then
        stream
      else
        let (token, source) := TokenSource.next stream.source
        pull count {
          source := source
          tokens := stream.tokens.push { token with index := stream.tokens.size }
          ended := token.isEnd }

/-- Take tokens until there is one at `index`, if the source has that many. -/
def reach
    (stream : TokenStream σ)
    (index : Nat) :
    TokenStream σ :=
  stream.pull (index + 1 - stream.tokens.size)

/-- A bound on the tokens of the stream, those still in the source included. -/
def bound (stream : TokenStream σ) : Nat :=
  stream.tokens.size + TokenSource.remaining stream.source + 1

/-- Take all tokens that are left. -/
def fill (stream : TokenStream σ) : TokenStream σ :=
  stream.pull (TokenSource.remaining stream.source + 1)

/-- The number of visible tokens of the stream, those still in the source included. -/
def visibleCount (stream : TokenStream σ) : Nat :=
  stream.fill.tokens.countP Token.isVisible

/-- Look for a visible token at `index` or one of the next `count` positions. -/
def nextVisibleWithin
    (count : Nat)
    (index : Nat)
    (stream : TokenStream σ) :
    Nat × TokenStream σ :=
  let stream := stream.reach index
  match stream.tokens[index]? with
  | none => (stream.tokens.size - 1, stream)
  | some token =>
      if token.isVisible then
        (index, stream)
      else
        match count with
        | 0 => (stream.tokens.size - 1, stream)
        | count + 1 => nextVisibleWithin count (index + 1) stream

/--
The position of the first visible token at or behind `index`.

The end of the input is visible, so there always is one; behind the end it is the end itself.
-/
def nextVisible
    (stream : TokenStream σ)
    (index : Nat) :
    Nat × TokenStream σ :=
  nextVisibleWithin (stream.bound - index) index stream

/-- The token at a position that was taken already. -/
def token
    (stream : TokenStream σ)
    (index : Nat) :
    Token :=
  stream.tokens.getD index (Token.ofEnd 0 1 0)

/-- The joined text of the tokens from `first` through `last`, without the end of the input. -/
def text
    (stream : TokenStream σ)
    (first last : Nat) :
    String × TokenStream σ :=
  let stream := stream.reach last
  let taken := stream.tokens.extract first (first + (last - first) + 1)
  let texts := (taken.toList.filter fun token => !token.isEnd).map Token.text
  (String.join texts, stream)

/-- The errors of the source since they were last taken. -/
def takeErrors (stream : TokenStream σ) : List SyntaxError × TokenStream σ :=
  let (errors, source) := TokenSource.takeErrors stream.source
  (errors, { stream with source := source })

end TokenStream

end GrammarService
