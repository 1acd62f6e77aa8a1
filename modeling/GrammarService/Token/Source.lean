import GrammarService.Token.Basic

namespace GrammarService

/-!
# Sources of tokens

A source hands out tokens one by one and collects errors meanwhile. It always comes to an end: a
bound on the tokens before the end goes down with every token it hands out.
-/

/-- A type whose values hand out tokens. -/
class TokenSource (σ : Type) where
  /-- The next token, and the source behind it. -/
  next : σ → Token × σ
  /-- The errors since they were last taken, and the source without them. -/
  takeErrors : σ → List SyntaxError × σ
  /-- A bound on the tokens that are left before the end of the input. -/
  remaining : σ → Nat
  remaining_next_lt : ∀ source,
    (next source).1.isEnd = false → remaining (next source).2 < remaining source

/-- Tokens handed out from a list, laid out side by side on one line. -/
structure ListedTokens where
  /-- The type, text and channel of each token that is left. -/
  pending : List (Int × String × Int)
  offset : Nat
  deriving Repr, DecidableEq

namespace ListedTokens

/-- The listed tokens, from the start of the line. -/
def ofList (pending : List (Int × String × Int)) : ListedTokens where
  pending := pending
  offset := 0

/-- The next token; once the list is used up, the end of the input. -/
def next (source : ListedTokens) : Token × ListedTokens :=
  match source.pending with
  | [] => (Token.ofEnd source.offset 1 source.offset, source)
  | (type, text, channel) :: pending =>
      let stop := source.offset + text.length
      ({ type := type
         text := text
         channel := channel
         start := source.offset
         stop := stop
         line := 1
         column := source.offset
         index := 0 }, ⟨pending, stop⟩)

instance : TokenSource ListedTokens where
  next := next
  takeErrors source := ([], source)
  remaining source := source.pending.length
  remaining_next_lt source notEnd := by
    rcases source with ⟨pending, offset⟩
    cases pending with
    | nil =>
        simp [next, Token.ofEnd, Token.isEnd] at notEnd
    | cons head tail =>
        simp [next]

end ListedTokens

end GrammarService
