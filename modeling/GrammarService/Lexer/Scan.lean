import GrammarService.Grammar
import GrammarService.Lexer.Match
import GrammarService.Token.Source

namespace GrammarService

/-!
# Splitting a text into tokens

A `Lexer` goes through a text from match to match. A match becomes a token, or is skipped, or is
kept as the beginning of a longer token, as its actions say. Characters that no rule matches are
reported and passed over.
-/

/-- A place in a text that is read from front to back. -/
structure TextCursor where
  unread : List Char
  /-- How many characters were read. -/
  offset : Nat
  line : Nat
  column : Nat
  deriving Repr, DecidableEq, Inhabited

namespace TextCursor

/-- The start of a text. -/
def ofText (text : String) : TextCursor where
  unread := text.toList
  offset := 0
  line := 1
  column := 0

/-- The place behind a character, with the given characters unread. -/
def pass
    (cursor : TextCursor)
    (character : Char)
    (unread : List Char) :
    TextCursor where
  unread := unread
  offset := cursor.offset + 1
  line := if character = '\n' then cursor.line + 1 else cursor.line
  column := if character = '\n' then 0 else cursor.column + 1

/-- Read up to `count` characters. -/
def advance : (count : Nat) → TextCursor → TextCursor
  | 0, cursor => cursor
  | count + 1, cursor =>
      match cursor.unread with
      | [] => cursor
      | character :: unread => advance count (cursor.pass character unread)

/-- The end of the input, as a token at this place. -/
def endToken (cursor : TextCursor) : Token :=
  Token.ofEnd cursor.offset cursor.line cursor.column

/-- Reading characters leaves no more of them unread. -/
theorem length_unread_advance_le
    (count : Nat)
    (cursor : TextCursor) :
    (cursor.advance count).unread.length ≤ cursor.unread.length := by
  induction count generalizing cursor with
  | zero =>
      exact Nat.le_refl _
  | succ count inductionHypothesis =>
      rcases cursor with ⟨unread, offset, line, column⟩
      cases unread with
      | nil =>
          simp [advance]
      | cons character unread =>
          exact Nat.le_succ_of_le (inductionHypothesis _)

/-- Reading at least one character leaves fewer unread, if there was one. -/
theorem length_unread_advance_lt
    {count : Nat}
    {cursor : TextCursor}
    (some_read : 0 < count)
    (some_left : cursor.unread ≠ []) :
    (cursor.advance count).unread.length < cursor.unread.length := by
  rcases cursor with ⟨unread, offset, line, column⟩
  cases unread with
  | nil =>
      exact absurd rfl some_left
  | cons character unread =>
      obtain ⟨count, rfl⟩ := Nat.exists_eq_add_of_lt some_read
      rw [Nat.zero_add]
      have shorter :=
        length_unread_advance_le count
          (pass ⟨character :: unread, offset, line, column⟩ character unread)
      exact Nat.lt_succ_of_le shorter

end TextCursor

/-- A text on its way through a lexer grammar. -/
structure Lexer where
  grammar : LexerGrammar
  cursor : TextCursor
  mode : Nat
  /-- The modes to return to, innermost first. -/
  modeStack : List Nat
  /-- Whether all of the text was matched. -/
  ended : Bool
  /-- The errors since they were last taken, newest first. -/
  errors : List SyntaxError
  deriving Inhabited

namespace Lexer

/-- The token type that marks a match as skipped. -/
def skipType : Int :=
  -3

/-- The token type that marks a match as the beginning of a longer token. -/
def moreType : Int :=
  -2

/-- The token type of a match to which no action gave a type. -/
def unsetType : Int :=
  0

/-- A token that has begun: where, on which channel, and with which characters so far. -/
structure Begun where
  start : TextCursor
  channel : Int
  text : List Char
  deriving Repr, DecidableEq

/-- The effect of the actions of a match. -/
structure Effect where
  mode : Nat
  modeStack : List Nat
  channel : Int
  type : Int
  deriving Repr, DecidableEq

namespace Effect

/-- The effect with that of one more action. -/
def perform
    (effect : Effect) :
    LexerAction → Effect
  | .channel value => { effect with channel := value }
  | .custom _ _ => effect
  | .mode mode => { effect with mode := mode }
  | .more => { effect with type := moreType }
  | .popMode =>
      match effect.modeStack with
      | [] => effect
      | mode :: outer => { effect with mode := mode, modeStack := outer }
  | .pushMode mode =>
      { effect with mode := mode, modeStack := effect.mode :: effect.modeStack }
  | .skip => { effect with type := skipType }
  | .type value => { effect with type := value }

/-- The effect with those of numbered actions, in order. -/
def performAll
    (effect : Effect)
    (actions : Array LexerAction)
    (numbers : List Nat) :
    Effect :=
  numbers.foldl
    (fun effect number =>
      match actions[number]? with
      | some action => effect.perform action
      | none => effect)
    effect

end Effect

/-- A lexer at the start of a text. -/
def ofText
    (grammar : LexerGrammar)
    (text : String) :
    Lexer where
  grammar := grammar
  cursor := TextCursor.ofText text
  mode := 0
  modeStack := []
  ended := false
  errors := []

/-- A lexer at the start of a text, for a grammar that has a mode to start in. -/
def create
    (grammar : LexerGrammar)
    (text : String) :
    Except ConstructionError Lexer :=
  if grammar.network.modeStarts.isEmpty then
    .error (.noModes grammar.name)
  else
    .ok (ofText grammar text)

/-- A token that begins at the cursor. -/
def begin (lexer : Lexer) : Begun where
  start := lexer.cursor
  channel := defaultChannel
  text := []

/-- Report `count` characters behind a token that has begun as unrecognized, and pass over them. -/
def passOver
    (lexer : Lexer)
    (begun : Begun)
    (count : Nat) :
    Lexer :=
  let text := String.ofList (begun.text ++ lexer.cursor.unread.take count)
  let error : SyntaxError :=
    { line := begun.start.line
      column := begun.start.column
      message := s!"token recognition error at: '{Text.escapeBreaks text}'" }
  { lexer with
    cursor := lexer.cursor.advance count
    errors := error :: lexer.errors }

/-- The token type of a rule. -/
def typeOfRule
    (network : Network)
    (rule : Option Nat) :
    Int :=
  match rule.bind (network.ruleTokenTypes[·]?) with
  | some type => type
  | none => unsetType

/-- Move the lexer behind a match and let the actions of the match take effect. -/
def consume
    (lexer : Lexer)
    (begun : Begun)
    (accepted : Accepted) :
    Int × Begun × Lexer :=
  let network := lexer.grammar.network
  let effect := Effect.performAll
    ⟨lexer.mode, lexer.modeStack, begun.channel, unsetType⟩
    network.lexerActions accepted.actions
  let type :=
    if effect.type = unsetType then
      typeOfRule network accepted.rule
    else
      effect.type
  let cursor := lexer.cursor.advance accepted.length
  (type,
    { begun with
      channel := effect.channel
      text := begun.text ++ lexer.cursor.unread.take accepted.length },
    { lexer with
      cursor := cursor
      mode := effect.mode
      modeStack := effect.modeStack
      ended := cursor.unread.isEmpty })

/-- The token that has begun and ends at the cursor. -/
def finish
    (lexer : Lexer)
    (begun : Begun)
    (type : Int) :
    Token where
  type := type
  text := String.ofList begun.text
  channel := begun.channel
  start := begun.start.offset
  stop := lexer.cursor.offset
  line := begun.start.line
  column := begun.start.column
  index := 0

/--
Match on until a token is finished, for at most `steps` matches.

A match of no characters is treated as a character that no rule matches, so that every step gets
on. A longer token that the input cuts off is dropped.
-/
def scan : (steps : Nat) → Begun → Lexer → Token × Lexer
  | 0, _, lexer => (lexer.cursor.endToken, lexer)
  | steps + 1, begun, lexer =>
      match matchToken lexer.grammar.network lexer.mode lexer.cursor.unread with
      | .ended => (lexer.cursor.endToken, { lexer with ended := true })
      | .failed length =>
          let lexer := lexer.passOver begun (length + 1)
          scan steps lexer.begin lexer
      | .accepted accepted =>
          if accepted.length = 0 then
            let lexer := lexer.passOver begun 1
            scan steps lexer.begin lexer
          else
            let (type, begun, lexer) := lexer.consume begun accepted
            if type = skipType then
              if lexer.ended then
                (lexer.cursor.endToken, lexer)
              else
                scan steps lexer.begin lexer
            else if type = moreType then
              if lexer.ended then
                (lexer.cursor.endToken, lexer)
              else
                scan steps begun lexer
            else
              (lexer.finish begun type, lexer)

/-- The next token; once the text is used up, the end of the input. -/
def next (lexer : Lexer) : Token × Lexer :=
  if lexer.ended then
    (lexer.cursor.endToken, lexer)
  else
    scan (lexer.cursor.unread.length + 1) lexer.begin lexer

/-- The errors since they were last taken, oldest first, and the lexer without them. -/
def takeErrors (lexer : Lexer) : List SyntaxError × Lexer :=
  (lexer.errors.reverse, { lexer with errors := [] })

/-- A bound on the tokens that are left: each takes a character, and one may be the last. -/
def remaining (lexer : Lexer) : Nat :=
  if lexer.ended then 0 else lexer.cursor.unread.length + 1

/-- The end of the input is a token that ends the input. -/
@[simp] theorem isEnd_endToken (cursor : TextCursor) : cursor.endToken.isEnd = true := by
  simp [TextCursor.endToken, Token.ofEnd, Token.isEnd]

/-- A match of some characters brings the lexer nearer to the end. -/
theorem remaining_consume_lt
    (lexer : Lexer)
    (begun : Begun)
    (accepted : Accepted)
    (active : lexer.ended = false)
    (notEmpty : accepted.length ≠ 0) :
    remaining (lexer.consume begun accepted).2.2 < remaining lexer := by
  have before : remaining lexer = lexer.cursor.unread.length + 1 := by
    simp [remaining, active]
  have after :
      remaining (lexer.consume begun accepted).2.2 =
        if (lexer.cursor.advance accepted.length).unread.isEmpty then
          0
        else
          (lexer.cursor.advance accepted.length).unread.length + 1 :=
    rfl
  rw [before, after]
  by_cases none_left : (lexer.cursor.advance accepted.length).unread = []
  · simp [none_left]
  · have some_left : lexer.cursor.unread ≠ [] := by
      intro nothing
      have shorter := lexer.cursor.length_unread_advance_le accepted.length
      rw [nothing] at shorter
      exact none_left (List.length_eq_zero_iff.mp (Nat.le_zero.mp shorter))
    have shorter :=
      TextCursor.length_unread_advance_lt (Nat.pos_of_ne_zero notEmpty) some_left
    rw [if_neg (by simpa using none_left)]
    omega

/-- Scanning hands out a token other than the end only by using up characters. -/
theorem remaining_scan_lt
    (steps : Nat)
    (begun : Begun)
    (lexer : Lexer)
    (active : lexer.ended = false)
    (notEnd : (scan steps begun lexer).1.isEnd = false) :
    remaining (scan steps begun lexer).2 < remaining lexer := by
  induction steps generalizing begun lexer with
  | zero =>
      simp [scan] at notEnd
  | succ steps inductionHypothesis =>
      have passedOver
          (count : Nat)
          (notEnd :
            (scan steps (lexer.passOver begun count).begin
              (lexer.passOver begun count)).1.isEnd = false) :
          remaining (scan steps (lexer.passOver begun count).begin
            (lexer.passOver begun count)).2 < remaining lexer := by
        have later := inductionHypothesis _ (lexer.passOver begun count) active notEnd
        have shorter := lexer.cursor.length_unread_advance_le count
        simp only [remaining, passOver, active] at later ⊢
        simp only [Bool.false_eq_true, if_false] at later ⊢
        omega
      unfold scan at notEnd ⊢
      cases matched : matchToken lexer.grammar.network lexer.mode lexer.cursor.unread with
      | ended =>
          simp [matched] at notEnd
      | failed length =>
          simp only [matched] at notEnd ⊢
          exact passedOver _ notEnd
      | accepted accepted =>
          simp only [matched] at notEnd ⊢
          by_cases empty : accepted.length = 0
          · simp only [empty, if_true] at notEnd ⊢
            exact passedOver _ notEnd
          · simp only [empty, if_false] at notEnd ⊢
            have consumed := remaining_consume_lt lexer begun accepted active empty
            generalize lexer.consume begun accepted = outcome at notEnd consumed ⊢
            rcases outcome with ⟨type, begun, behind⟩
            simp only at notEnd consumed ⊢
            cases ended : behind.ended with
            | true =>
                simp only [ended, if_true] at notEnd ⊢
                split at notEnd
                · simp at notEnd
                · rename_i notSkipped
                  simp only [notSkipped, if_false] at notEnd ⊢
                  split at notEnd
                  · simp at notEnd
                  · rename_i notMore
                    simpa only [notMore, if_false] using consumed
            | false =>
                simp only [ended, Bool.false_eq_true, if_false] at notEnd ⊢
                split at notEnd
                · rename_i skipped
                  simp only [skipped, if_true] at notEnd ⊢
                  exact Nat.lt_trans (inductionHypothesis _ behind ended notEnd) consumed
                · rename_i notSkipped
                  simp only [notSkipped, if_false] at notEnd ⊢
                  split at notEnd
                  · rename_i more
                    simp only [more, if_true] at notEnd ⊢
                    exact Nat.lt_trans (inductionHypothesis _ behind ended notEnd) consumed
                  · rename_i notMore
                    simpa only [notMore, if_false] using consumed

/-- A lexer has fewer tokens left with every token it hands out. -/
theorem remaining_next_lt
    (lexer : Lexer)
    (notEnd : lexer.next.1.isEnd = false) :
    remaining lexer.next.2 < remaining lexer := by
  unfold next at notEnd ⊢
  cases ended : lexer.ended with
  | true =>
      simp [ended] at notEnd
  | false =>
      simp only [ended, Bool.false_eq_true, if_false] at notEnd ⊢
      exact remaining_scan_lt _ _ lexer ended notEnd

instance : TokenSource Lexer where
  next := next
  takeErrors := takeErrors
  remaining := remaining
  remaining_next_lt := remaining_next_lt

end Lexer

end GrammarService
