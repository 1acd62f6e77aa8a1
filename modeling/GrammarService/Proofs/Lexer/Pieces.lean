import GrammarService.Lexer.Scan
import GrammarService.Proofs.Network.Coherent

namespace GrammarService

/-!
# The pieces of a text

A lexer cuts a text into pieces: tokens, skipped matches, characters that it does not recognize,
and at last perhaps the beginning of a token that the end of the text cuts off. A piece begins
with the matches that its last match extends.

The pieces follow each other without gaps, from the start of the text to where the lexer has got
to. Tokens and errors tell where their pieces begin and what is in them.
-/

/-! ## Places in a source -/

namespace TextCursor

/-- The line of a place, from the characters before it. -/
def lineBehind (before : List Char) : Nat :=
  before.count '\n' + 1

/-- The column of a place, from the characters before it: how many follow the last line feed. -/
def columnBehind (before : List Char) : Nat :=
  (before.reverse.takeWhile fun character => character ≠ '\n').length

theorem lineBehind_append
    (before : List Char)
    (character : Char) :
    lineBehind (before ++ [character]) =
      if character = '\n' then lineBehind before + 1 else lineBehind before := by
  by_cases isBreak : character = '\n' <;> simp [lineBehind, isBreak]

theorem columnBehind_append
    (before : List Char)
    (character : Char) :
    columnBehind (before ++ [character]) =
      if character = '\n' then 0 else columnBehind before + 1 := by
  by_cases isBreak : character = '\n' <;> simp [columnBehind, isBreak]

/-- A cursor knows its place in a source and has the rest of the source before it. -/
structure IsIn
    (source : List Char)
    (cursor : TextCursor) :
    Prop where
  offset_le : cursor.offset ≤ source.length
  unread : cursor.unread = source.drop cursor.offset
  line : cursor.line = lineBehind (source.take cursor.offset)
  column : cursor.column = columnBehind (source.take cursor.offset)

theorem isIn_ofText (text : String) : (ofText text).IsIn text.toList :=
  ⟨Nat.zero_le _, rfl, rfl, rfl⟩

namespace IsIn

variable {source : List Char} {cursor : TextCursor}

/-- Passing a character leads to the next place. -/
theorem pass
    (inSource : cursor.IsIn source)
    {character : Char}
    {unread : List Char}
    (isUnread : cursor.unread = character :: unread) :
    (cursor.pass character unread).IsIn source := by
  obtain ⟨offset_le, unread_eq, line, column⟩ := inSource
  rw [isUnread] at unread_eq
  have inBounds : cursor.offset < source.length := by
    by_contra outside
    simp [List.drop_eq_nil_of_le (Nat.le_of_not_lt outside)] at unread_eq
  rw [List.drop_eq_getElem_cons inBounds, List.cons.injEq] at unread_eq
  obtain ⟨rfl, rfl⟩ := unread_eq
  have before :
      source.take (cursor.offset + 1) =
        source.take cursor.offset ++ [source[cursor.offset]] :=
    (List.take_append_getElem inBounds).symm
  refine ⟨inBounds, rfl, ?_, ?_⟩
  · change _ = lineBehind (source.take (cursor.offset + 1))
    rw [before, lineBehind_append, ← line]
    rfl
  · change _ = columnBehind (source.take (cursor.offset + 1))
    rw [before, columnBehind_append, ← column]
    rfl

/-- Advancing leads to the place so many characters further, or to the end. -/
theorem advance
    (inSource : cursor.IsIn source)
    (count : Nat) :
    (cursor.advance count).IsIn source ∧
      (cursor.advance count).offset = cursor.offset + min count cursor.unread.length := by
  induction count generalizing cursor with
  | zero => exact ⟨inSource, by simp [TextCursor.advance]⟩
  | succ count inductionHypothesis =>
      unfold TextCursor.advance
      cases isUnread : cursor.unread with
      | nil => exact ⟨inSource, by simp⟩
      | cons character unread =>
          obtain ⟨later, offset⟩ := inductionHypothesis (inSource.pass isUnread)
          refine ⟨later, offset.trans ?_⟩
          simp only [TextCursor.pass, List.length_cons]
          omega

/-- Where nothing is left to read, the source is at its end. -/
theorem offset_eq
    (inSource : cursor.IsIn source)
    (nothing_left : cursor.unread = []) :
    cursor.offset = source.length := by
  have same := congrArg List.length inSource.unread
  rw [nothing_left, List.length_drop, List.length_nil] at same
  have := inSource.offset_le
  omega

/-- Advancing over characters that are there leads further. -/
theorem offset_lt_advance
    (inSource : cursor.IsIn source)
    {count : Nat}
    (some_read : 0 < count)
    (some_left : cursor.unread ≠ []) :
    cursor.offset < (cursor.advance count).offset := by
  rw [(inSource.advance count).2]
  have := List.length_pos_iff.mpr some_left
  omega

/-- The text from an earlier place, prolonged by what is passed over. -/
theorem extract_advance
    (inSource : cursor.IsIn source)
    {start : Nat}
    (start_le : start ≤ cursor.offset)
    (count : Nat) :
    source.extract start cursor.offset ++ cursor.unread.take count =
      source.extract start (cursor.advance count).offset := by
  have further := (inSource.advance count).2
  have isSum :
      (cursor.advance count).offset - start =
        (cursor.offset - start) + min count cursor.unread.length := by
    omega
  rw [List.extract_eq_take_drop, List.extract_eq_take_drop, isSum, List.take_add,
    List.drop_drop, Nat.add_sub_cancel' start_le, ← inSource.unread,
    List.take_eq_take_min (i := count)]

end IsIn

end TextCursor

namespace Lexer

/-! ## Pieces -/

/-- What a piece of a text is to a lexer. -/
inductive PieceKind
  | token (token : Token)
  | skipped
  | unrecognized (error : SyntaxError)
  /-- The beginning of a token that the end of the text cuts off. -/
  | cutOff

/-- A piece of a text, by the offsets of its first character and of the one behind its last. -/
structure Piece where
  start : Nat
  stop : Nat
  kind : PieceKind

namespace Piece

/-- The token that the piece is, if it is one. -/
def token? (piece : Piece) : Option Token :=
  match piece.kind with
  | .token token => some token
  | _ => none

/-- The error that the piece was reported with, if it was not recognized. -/
def error? (piece : Piece) : Option SyntaxError :=
  match piece.kind with
  | .unrecognized error => some error
  | _ => none

/-- Whether an offset is in the piece. -/
def Contains
    (piece : Piece)
    (offset : Nat) :
    Prop :=
  piece.start ≤ offset ∧ offset < piece.stop

end Piece

/-- Some rule accepts some characters at the cursor. -/
def Accepts
    (lexer : Lexer)
    (accepted : Accepted) :
    Prop :=
  matchToken lexer.grammar.network lexer.mode lexer.cursor.unread = .accepted accepted ∧
    accepted.length ≠ 0

/-- No rule accepts any characters at the cursor, and so many are to be passed over. -/
inductive Rejects (lexer : Lexer) : (count : Nat) → Prop where
  | failed
      {length : Nat}
      (matched :
        matchToken lexer.grammar.network lexer.mode lexer.cursor.unread = .failed length) :
      Rejects lexer (length + 1)
  | empty
      {accepted : Accepted}
      (matched :
        matchToken lexer.grammar.network lexer.mode lexer.cursor.unread = .accepted accepted)
      (nothing : accepted.length = 0) :
      Rejects lexer 1

/-- Matches from the cursor of the first lexer on that are all to be made longer. -/
inductive Extends (first : Lexer) : Begun → Lexer → Prop where
  | none :
      Extends first first.begin first
  | more
      {begun whole : Begun}
      {lexer behind : Lexer}
      {accepted : Accepted}
      (earlier : Extends first begun lexer)
      (accepts : lexer.Accepts accepted)
      (consumed : lexer.consume begun accepted = (moreType, whole, behind))
      (active : behind.ended = false) :
      Extends first whole behind

/-- A lexer goes over one piece of the text. -/
inductive Passes (first : Lexer) : Piece → Lexer → Prop where
  | token
      {begun whole : Begun}
      {lexer last : Lexer}
      {accepted : Accepted}
      {type : Int}
      (earlier : Extends first begun lexer)
      (accepts : lexer.Accepts accepted)
      (consumed : lexer.consume begun accepted = (type, whole, last))
      (notSkipped : type ≠ skipType)
      (notMore : type ≠ moreType) :
      Passes first
        ⟨first.cursor.offset, last.cursor.offset, .token (last.finish whole type)⟩ last
  | skipped
      {begun whole : Begun}
      {lexer last : Lexer}
      {accepted : Accepted}
      (earlier : Extends first begun lexer)
      (accepts : lexer.Accepts accepted)
      (consumed : lexer.consume begun accepted = (skipType, whole, last)) :
      Passes first ⟨first.cursor.offset, last.cursor.offset, .skipped⟩ last
  | cutOff
      {begun whole : Begun}
      {lexer last : Lexer}
      {accepted : Accepted}
      (earlier : Extends first begun lexer)
      (accepts : lexer.Accepts accepted)
      (consumed : lexer.consume begun accepted = (moreType, whole, last))
      (ended : last.ended = true) :
      Passes first ⟨first.cursor.offset, last.cursor.offset, .cutOff⟩ last
  | unrecognized
      {begun : Begun}
      {lexer : Lexer}
      {count : Nat}
      {error : SyntaxError}
      (earlier : Extends first begun lexer)
      (rejects : lexer.Rejects count)
      (reported : (lexer.passOver begun count).errors = error :: lexer.errors) :
      Passes first
        ⟨first.cursor.offset, (lexer.passOver begun count).cursor.offset, .unrecognized error⟩
        (lexer.passOver begun count)

/-- A lexer goes over pieces of the text, one after the other. -/
inductive Passage : Lexer → List Piece → Lexer → Prop where
  | stay
      {lexer : Lexer} :
      Passage lexer [] lexer
  | step
      {first next last : Lexer}
      {piece : Piece}
      {pieces : List Piece}
      (passes : Passes first piece next)
      (later : Passage next pieces last) :
      Passage first (piece :: pieces) last

/-- Passages follow each other. -/
theorem Passage.append
    {first middle last : Lexer}
    {pieces more : List Piece}
    (passage : Passage first pieces middle)
    (later : Passage middle more last) :
    Passage first (pieces ++ more) last := by
  induction passage with
  | stay => exact later
  | step passes _ inductionHypothesis => exact .step passes (inductionHypothesis later)

/-! ## Lexers that can go on -/

/-- A lexer of a grammar that is in one of its modes and returns to such modes only. -/
structure IsReady
    (grammar : LexerGrammar)
    (lexer : Lexer) :
    Prop where
  isGrammar : lexer.grammar = grammar
  mode : lexer.mode < grammar.network.modeStarts.size
  modeStack : ∀ mode ∈ lexer.modeStack, mode < grammar.network.modeStarts.size

/-- The grammar accepts no token where the text ends, in any of its modes. -/
def AcceptsNothingAtEnd (grammar : LexerGrammar) : Prop :=
  ∀ mode accepted, matchToken grammar.network mode [] ≠ .accepted accepted

section Ready

variable
  {grammar : LexerGrammar}
  (coherent : grammar.network.Coherent)

include coherent

/-- The actions of a match lead to modes that there are. -/
theorem modes_performAll
    (effect : Effect)
    (mode : effect.mode < grammar.network.modeStarts.size)
    (modeStack : ∀ mode ∈ effect.modeStack, mode < grammar.network.modeStarts.size)
    (numbers : List Nat) :
    (effect.performAll grammar.network.lexerActions numbers).mode <
        grammar.network.modeStarts.size ∧
      ∀ mode ∈ (effect.performAll grammar.network.lexerActions numbers).modeStack,
        mode < grammar.network.modeStarts.size := by
  refine foldl_keeps
    (fun effect : Effect =>
      effect.mode < grammar.network.modeStarts.size ∧
        ∀ mode ∈ effect.modeStack, mode < grammar.network.modeStarts.size)
    ?_ ⟨mode, modeStack⟩
  intro number _ before inModes
  cases isAction : grammar.network.lexerActions[number]? with
  | none => exact inModes
  | some action =>
      have member := Array.mem_of_getElem? isAction
      cases action with
      | mode next => exact ⟨coherent.lexerMode member rfl, inModes.2⟩
      | pushMode next =>
          refine ⟨coherent.lexerMode member rfl, ?_⟩
          intro mode isMode
          rcases List.mem_cons.mp isMode with rfl | isOuter
          · exact inModes.1
          · exact inModes.2 mode isOuter
      | popMode =>
          cases stack : before.modeStack with
          | nil => simpa [Effect.perform, stack] using inModes
          | cons inner outer =>
              rw [stack] at inModes
              refine ⟨?_, ?_⟩
              · simpa [Effect.perform, stack] using inModes.2 inner List.mem_cons_self
              · intro mode isMode
                refine inModes.2 mode (List.mem_cons_of_mem inner ?_)
                simpa [Effect.perform, stack] using isMode
      | _ => exact inModes

/-- A match leaves the lexer ready. -/
theorem IsReady.consume
    {lexer last : Lexer}
    {begun whole : Begun}
    {accepted : Accepted}
    {type : Int}
    (ready : lexer.IsReady grammar)
    (consumed : lexer.consume begun accepted = (type, whole, last)) :
    last.IsReady grammar := by
  obtain ⟨rfl, mode, modeStack⟩ := ready
  cases consumed
  obtain ⟨mode, modeStack⟩ := modes_performAll coherent
    ⟨lexer.mode, lexer.modeStack, begun.channel, unsetType⟩ mode modeStack accepted.actions
  exact ⟨rfl, mode, modeStack⟩

/-- Matches that are to be made longer leave the lexer ready. -/
theorem Extends.isReady
    {first lexer : Lexer}
    {begun : Begun}
    (run : Extends first begun lexer)
    (ready : first.IsReady grammar) :
    lexer.IsReady grammar := by
  induction run with
  | none => exact ready
  | more _ _ consumed _ inductionHypothesis => exact inductionHypothesis.consume coherent consumed

end Ready

/-- Passing over characters leaves the lexer ready. -/
theorem IsReady.passOver
    {grammar : LexerGrammar}
    {lexer : Lexer}
    (ready : lexer.IsReady grammar)
    (begun : Begun)
    (count : Nat) :
    (lexer.passOver begun count).IsReady grammar :=
  ⟨ready.isGrammar, ready.mode, ready.modeStack⟩

/-- Only where the text ends does matching find its end. -/
theorem IsReady.unread_eq_nil
    {grammar : LexerGrammar}
    {lexer : Lexer}
    (ready : lexer.IsReady grammar)
    (matched :
      matchToken lexer.grammar.network lexer.mode lexer.cursor.unread = .ended) :
    lexer.cursor.unread = [] := by
  rw [ready.isGrammar, matchToken, Array.getElem?_eq_getElem ready.mode] at matched
  dsimp only at matched
  split at matched
  · cases matched
  · split at matched
    · rename_i isEmpty
      exact List.isEmpty_iff.mp isEmpty
    · cases matched

/-- Where the text ends no match fails. -/
theorem matchToken_nil_ne_failed
    {network : Network}
    {mode length : Nat} :
    matchToken network mode [] ≠ .failed length := by
  unfold matchToken
  split
  · simp
  · dsimp only
    split <;> simp

section AtEnd

variable
  {grammar : LexerGrammar}
  {lexer : Lexer}
  (ready : lexer.IsReady grammar)
  (atEnd : AcceptsNothingAtEnd grammar)

include ready atEnd

/-- What is accepted is in front of the end. -/
theorem Accepts.unread_ne_nil
    {accepted : Accepted}
    (accepts : lexer.Accepts accepted) :
    lexer.cursor.unread ≠ [] := by
  intro nothing_left
  have matched := accepts.1
  rw [nothing_left, ready.isGrammar] at matched
  exact atEnd _ _ matched

/-- What is rejected is in front of the end. -/
theorem Rejects.unread_ne_nil
    {count : Nat}
    (rejects : lexer.Rejects count) :
    lexer.cursor.unread ≠ [] := by
  intro nothing_left
  cases rejects with
  | failed matched =>
      rw [nothing_left] at matched
      exact matchToken_nil_ne_failed matched
  | empty matched _ =>
      rw [nothing_left, ready.isGrammar] at matched
      exact atEnd _ _ matched

end AtEnd

theorem Rejects.count_pos
    {lexer : Lexer}
    {count : Nat}
    (rejects : lexer.Rejects count) :
    0 < count := by
  cases rejects <;> omega

end Lexer

end GrammarService
