import GrammarService.Proofs.Lexer.Pieces

namespace GrammarService

/-!
# What a lexer hands out

Each call of a lexer goes over pieces up to the next token, or to the end of the text. So whatever
is called, the tokens and the reported errors are those of the pieces so far, and every place
before the cursor is in exactly one piece. Main statement: `calls_cover`.
-/

namespace Lexer

/-! ## What pieces say -/

/-- A piece is a part of the source, and its token or error tells which one. -/
structure Piece.Describes
    (source : List Char)
    (piece : Piece) :
    Prop where
  start_lt : piece.start < piece.stop
  stop_le : piece.stop ≤ source.length
  token :
    ∀ {token : Token},
      piece.token? = some token →
        token.start = piece.start ∧ token.stop = piece.stop ∧
          token.text = String.ofList (source.extract piece.start piece.stop) ∧
          token.line = TextCursor.lineBehind (source.take piece.start) ∧
          token.column = TextCursor.columnBehind (source.take piece.start)
  error :
    ∀ {error : SyntaxError},
      piece.error? = some error →
        error.line = TextCursor.lineBehind (source.take piece.start) ∧
          error.column = TextCursor.columnBehind (source.take piece.start) ∧
          error.message =
            "token recognition error at: '" ++
              Text.escapeBreaks (String.ofList (source.extract piece.start piece.stop)) ++ "'"
  cutOff : piece.kind = .cutOff → piece.stop = source.length

/-- Pieces follow each other without gaps. -/
inductive Tiles : (start : Nat) → List Piece → (stop : Nat) → Prop where
  | nothing
      {start : Nat} :
      Tiles start [] start
  | piece
      {stop : Nat}
      {piece : Piece}
      {pieces : List Piece}
      (later : Tiles piece.stop pieces stop) :
      Tiles piece.start (piece :: pieces) stop

namespace Tiles

variable {start stop : Nat} {pieces : List Piece}

/-- Pieces lie between the places that they lead from and to, and take some room each. -/
theorem bounds
    (tiles : Tiles start pieces stop)
    (nonempty : ∀ piece ∈ pieces, piece.start < piece.stop) :
    start + pieces.length ≤ stop ∧ ∀ piece ∈ pieces, start ≤ piece.start := by
  induction tiles with
  | nothing => simp
  | @piece stop first pieces later inductionHypothesis =>
      have below := nonempty first List.mem_cons_self
      obtain ⟨room, above⟩ := inductionHypothesis
        fun piece member => nonempty piece (List.mem_cons_of_mem first member)
      refine ⟨by simp only [List.length_cons]; omega, ?_⟩
      intro piece member
      rcases List.mem_cons.mp member with rfl | isLater
      · exact Nat.le_refl _
      · have := above piece isLater
        omega

/-- No piece begins before an earlier one ends. -/
theorem pairwise
    (tiles : Tiles start pieces stop)
    (nonempty : ∀ piece ∈ pieces, piece.start < piece.stop) :
    pieces.Pairwise fun earlier later => earlier.stop ≤ later.start := by
  induction tiles with
  | nothing => exact .nil
  | @piece stop first pieces later inductionHypothesis =>
      have ofLater : ∀ piece ∈ pieces, piece.start < piece.stop :=
        fun piece member => nonempty piece (List.mem_cons_of_mem first member)
      exact .cons (later.bounds ofLater).2 (inductionHypothesis ofLater)

/-- Every place between the first and the last is in exactly one piece. -/
theorem existsUnique
    (tiles : Tiles start pieces stop)
    (nonempty : ∀ piece ∈ pieces, piece.start < piece.stop)
    {offset : Nat}
    (start_le : start ≤ offset)
    (lt_stop : offset < stop) :
    ∃! piece, piece ∈ pieces ∧ piece.Contains offset := by
  induction tiles with
  | nothing => omega
  | @piece stop first pieces later inductionHypothesis =>
      have ofLater : ∀ piece ∈ pieces, piece.start < piece.stop :=
        fun piece member => nonempty piece (List.mem_cons_of_mem first member)
      have above := (later.bounds ofLater).2
      rcases Nat.lt_or_ge offset first.stop with isFirst | isLater
      · refine ⟨first, ⟨List.mem_cons_self, start_le, isFirst⟩, ?_⟩
        rintro other ⟨member, contains⟩
        rcases List.mem_cons.mp member with rfl | isOther
        · rfl
        · have := above other isOther
          have := contains.1
          omega
      · obtain ⟨piece, ⟨member, contains⟩, unique⟩ :=
          inductionHypothesis ofLater isLater lt_stop
        refine ⟨piece, ⟨List.mem_cons_of_mem first member, contains⟩, ?_⟩
        rintro other ⟨otherMember, otherContains⟩
        rcases List.mem_cons.mp otherMember with rfl | isOther
        · have := otherContains.2
          omega
        · exact unique other ⟨isOther, otherContains⟩

end Tiles

/-! ## Where a lexer gets to -/

/-- What a match changes, apart from the mode. -/
theorem consume_keeps
    {lexer last : Lexer}
    {begun whole : Begun}
    {accepted : Accepted}
    {type : Int}
    (consumed : lexer.consume begun accepted = (type, whole, last)) :
    last.cursor = lexer.cursor.advance accepted.length ∧
      whole.start = begun.start ∧
      whole.text = begun.text ++ lexer.cursor.unread.take accepted.length ∧
      last.ended = last.cursor.unread.isEmpty ∧
      last.errors = lexer.errors := by
  cases consumed
  exact ⟨rfl, rfl, rfl, rfl, rfl⟩

/-- A token that has begun has the text from where it began to the cursor. -/
structure Begun.Reaches
    (source : List Char)
    (first cursor : TextCursor)
    (begun : Begun) :
    Prop where
  start : begun.start = first
  start_le : first.offset ≤ cursor.offset
  text : begun.text = source.extract first.offset cursor.offset

variable {source : List Char} {first lexer last : Lexer} {begun whole : Begun}

/-- Matches that are to be made longer collect the text that they pass. -/
theorem Extends.reaches
    (run : Extends first begun lexer)
    (inSource : first.cursor.IsIn source) :
    lexer.cursor.IsIn source ∧ begun.Reaches source first.cursor lexer.cursor ∧
      lexer.errors = first.errors := by
  induction run with
  | none =>
      exact ⟨inSource, ⟨rfl, Nat.le_refl _, by simp [begin, List.extract_eq_take_drop]⟩, rfl⟩
  | more earlier accepts consumed active inductionHypothesis =>
      obtain ⟨here, reaches, errors⟩ := inductionHypothesis
      obtain ⟨cursor, start, text, _, same⟩ := consume_keeps consumed
      obtain ⟨there, further⟩ := here.advance _
      rw [cursor]
      refine ⟨there, ⟨start.trans reaches.start, ?_, ?_⟩, same.trans errors⟩
      · have := reaches.start_le
        omega
      · rw [text, reaches.text, here.extract_advance reaches.start_le]

/-- A match that makes a token longer leaves more to read, so none was made where nothing is. -/
theorem Extends.eq_of_unread_eq_nil
    (run : Extends first begun lexer)
    (nothing_left : lexer.cursor.unread = []) :
    begun = first.begin ∧ lexer = first := by
  cases run with
  | none => exact ⟨rfl, rfl⟩
  | more earlier accepts consumed active =>
      have ended := (consume_keeps consumed).2.2.2.1
      rw [nothing_left, active] at ended
      cases ended

/-- The last match of a piece leads on, to the end of its text. -/
theorem Extends.consume
    {accepted : Accepted}
    {type : Int}
    (run : Extends first begun lexer)
    (inSource : first.cursor.IsIn source)
    (nonempty : accepted.length ≠ 0)
    (some_left : lexer.cursor.unread ≠ [])
    (consumed : lexer.consume begun accepted = (type, whole, last)) :
    last.cursor.IsIn source ∧ whole.Reaches source first.cursor last.cursor ∧
      first.cursor.offset < last.cursor.offset ∧ last.errors = first.errors := by
  obtain ⟨here, reaches, errors⟩ := run.reaches inSource
  obtain ⟨cursor, start, text, _, same⟩ := consume_keeps consumed
  have further := here.offset_lt_advance (Nat.pos_of_ne_zero nonempty) some_left
  have start_le := reaches.start_le
  rw [cursor]
  refine ⟨(here.advance _).1, ⟨start.trans reaches.start, by omega, ?_⟩, by omega,
    same.trans errors⟩
  rw [text, reaches.text, here.extract_advance reaches.start_le]

section Pieces

variable
  {grammar : LexerGrammar}
  (coherent : grammar.network.Coherent)
  (atEnd : AcceptsNothingAtEnd grammar)

include coherent atEnd

/-- A piece leads from one place of the source to a later one, and tells which. -/
theorem Passes.describes
    {piece : Piece}
    (passes : Passes first piece last)
    (ready : first.IsReady grammar)
    (inSource : first.cursor.IsIn source) :
    last.IsReady grammar ∧ last.cursor.IsIn source ∧ piece.Describes source ∧
      piece.start = first.cursor.offset ∧ piece.stop = last.cursor.offset ∧
      last.errors = piece.error?.toList ++ first.errors := by
  cases passes with
  | token earlier accepts consumed notSkipped notMore =>
      have readyNow := earlier.isReady coherent ready
      obtain ⟨there, reaches, further, errors⟩ :=
        earlier.consume inSource accepts.2 (accepts.unread_ne_nil readyNow atEnd) consumed
      refine ⟨readyNow.consume coherent consumed, there, ?_, rfl, rfl, errors⟩
      refine ⟨further, there.offset_le, ?_, by simp [Piece.error?], by simp⟩
      intro token isToken
      cases isToken
      simp [finish, reaches.start, reaches.text, inSource.line, inSource.column]
  | skipped earlier accepts consumed =>
      have readyNow := earlier.isReady coherent ready
      obtain ⟨there, reaches, further, errors⟩ :=
        earlier.consume inSource accepts.2 (accepts.unread_ne_nil readyNow atEnd) consumed
      refine ⟨readyNow.consume coherent consumed, there, ?_, rfl, rfl, errors⟩
      exact ⟨further, there.offset_le, by simp [Piece.token?], by simp [Piece.error?], by simp⟩
  | cutOff earlier accepts consumed ended =>
      have readyNow := earlier.isReady coherent ready
      obtain ⟨there, reaches, further, errors⟩ :=
        earlier.consume inSource accepts.2 (accepts.unread_ne_nil readyNow atEnd) consumed
      refine ⟨readyNow.consume coherent consumed, there, ?_, rfl, rfl, errors⟩
      refine ⟨further, there.offset_le, by simp [Piece.token?], by simp [Piece.error?], ?_⟩
      intro _
      rw [(consume_keeps consumed).2.2.2.1] at ended
      exact there.offset_eq (List.isEmpty_iff.mp ended)
  | @unrecognized begun lexer count error earlier rejects reported =>
      have readyNow := earlier.isReady coherent ready
      obtain ⟨here, reaches, errors⟩ := earlier.reaches inSource
      have there := (here.advance count).1
      have further :=
        here.offset_lt_advance rejects.count_pos (rejects.unread_ne_nil readyNow atEnd)
      have start_le := reaches.start_le
      refine ⟨readyNow.passOver begun count, there, ?_, rfl, rfl, ?_⟩
      · refine ⟨Nat.lt_of_le_of_lt start_le further, there.offset_le, by simp [Piece.token?],
          ?_, by simp⟩
        intro error isError
        cases isError
        obtain ⟨isError, _⟩ := List.cons.inj reported
        rw [← isError, reaches.start, reaches.text, here.extract_advance start_le]
        exact ⟨inSource.line, inSource.column, rfl⟩
      · rw [reported, errors]
        rfl

/-- Pieces one after the other tile the source, and their errors are reported. -/
theorem Passage.describes
    {pieces : List Piece}
    (passage : Passage first pieces last)
    (ready : first.IsReady grammar)
    (inSource : first.cursor.IsIn source) :
    last.IsReady grammar ∧ last.cursor.IsIn source ∧
      (∀ piece ∈ pieces, piece.Describes source) ∧
      Tiles first.cursor.offset pieces last.cursor.offset ∧
      last.errors.reverse = first.errors.reverse ++ pieces.filterMap Piece.error? := by
  induction passage with
  | stay => exact ⟨ready, inSource, by simp, .nothing, by simp⟩
  | @step first next last piece pieces passes later inductionHypothesis =>
      obtain ⟨readyNext, there, describes, start, stop, errors⟩ :=
        passes.describes coherent atEnd ready inSource
      obtain ⟨readyLast, atLast, describesLater, tiles, laterErrors⟩ :=
        inductionHypothesis readyNext there
      refine ⟨readyLast, atLast, ?_, ?_, ?_⟩
      · intro other member
        rcases List.mem_cons.mp member with rfl | isLater
        · exact describes
        · exact describesLater other isLater
      · rw [← stop] at tiles
        rw [← start]
        exact .piece tiles
      · rw [laterErrors, errors, List.reverse_append, List.append_assoc]
        cases isError : piece.error? <;> simp [isError]

end Pieces

/-! ## What calls hand out -/

/-- What one call hands out, and the pieces it goes over. -/
inductive Hands (first : Lexer) : Token → Lexer → Prop where
  | token
      {pieces : List Piece}
      {token : Token}
      {last : Lexer}
      (passage : Passage first pieces last)
      (isToken : pieces.filterMap Piece.token? = [token])
      (finished : last.ended = true → last.cursor.unread = []) :
      Hands first token last
  | end_
      {pieces : List Piece}
      {behind : Lexer}
      (passage : Passage first pieces behind)
      (noToken : pieces.filterMap Piece.token? = [])
      (finished : behind.cursor.unread = []) :
      Hands first behind.cursor.endToken { behind with ended := true }

/-- A call may go over a piece that is no token before what it goes over otherwise. -/
theorem Hands.step
    {token : Token}
    {piece : Piece}
    {next : Lexer}
    (passes : Passes first piece next)
    (noToken : piece.token? = none)
    (hands : Hands next token last) :
    Hands first token last := by
  cases hands with
  | token passage isToken finished =>
      exact .token (.step passes passage) (by simpa [noToken] using isToken) finished
  | end_ passage silent finished =>
      exact .end_ (.step passes passage) (by simpa [noToken] using silent) finished

/-- Behind a piece with which the text ends, the end of the input is handed out. -/
theorem Hands.ended
    {piece : Piece}
    (passes : Passes first piece last)
    (noToken : piece.token? = none)
    (ended : last.ended = true)
    (finished : last.cursor.unread = []) :
    Hands first last.cursor.endToken last := by
  have hands := Hands.end_ (.step passes .stay) (by simp [noToken]) finished
  rcases last with ⟨grammar, cursor, mode, modeStack, isEnded, errors⟩
  cases ended
  exact hands

/-- Characters that are passed over end what has begun. -/
theorem scan_of_rejects
    {count steps : Nat}
    (rejects : lexer.Rejects count) :
    scan (steps + 1) begun lexer =
      scan steps (lexer.passOver begun count).begin (lexer.passOver begun count) := by
  cases rejects with
  | failed matched => rw [scan, matched]
  | empty matched nothing =>
      rw [scan, matched]
      simp only [nothing, if_true]

/-- What is accepted is skipped, made longer or handed out. -/
theorem scan_of_accepts
    {accepted : Accepted}
    {steps : Nat}
    {type : Int}
    (accepts : lexer.Accepts accepted)
    (consumed : lexer.consume begun accepted = (type, whole, last)) :
    scan (steps + 1) begun lexer =
      if type = skipType then
        if last.ended then (last.cursor.endToken, last) else scan steps last.begin last
      else if type = moreType then
        if last.ended then (last.cursor.endToken, last) else scan steps whole last
      else
        (last.finish whole type, last) := by
  rw [scan, accepts.1]
  simp only [accepts.2, if_false, consumed]

section Calls

variable
  {grammar : LexerGrammar}
  (coherent : grammar.network.Coherent)
  (atEnd : AcceptsNothingAtEnd grammar)

include coherent atEnd

/-- Matching on until a token is finished goes over the pieces up to it. -/
theorem hands_scan
    {steps : Nat}
    (run : Extends first begun lexer)
    (ready : first.IsReady grammar)
    (inSource : first.cursor.IsIn source)
    (active : lexer.ended = false)
    (enough : lexer.cursor.unread.length < steps) :
    Hands first (scan steps begun lexer).1 (scan steps begun lexer).2 := by
  -- By induction on the steps: each uses up characters, and there are more steps than those.
  induction steps generalizing first begun lexer with
  | zero => omega
  | succ steps inductionHypothesis =>
      have readyNow := run.isReady coherent ready
      obtain ⟨here, reaches, errors⟩ := run.reaches inSource
      have rejected :
          ∀ {count : Nat},
            lexer.Rejects count →
              Hands first (scan (steps + 1) begun lexer).1 (scan (steps + 1) begun lexer).2 := by
        intro count rejects
        have some_left := rejects.unread_ne_nil readyNow atEnd
        have shorter :=
          TextCursor.length_unread_advance_lt rejects.count_pos some_left
        rw [scan_of_rejects rejects]
        refine .step (.unrecognized run rejects rfl) rfl ?_
        exact inductionHypothesis .none (readyNow.passOver begun count) (here.advance count).1
          active (by simp only [passOver]; omega)
      cases matched : matchToken lexer.grammar.network lexer.mode lexer.cursor.unread with
      | ended =>
          have nothing_left := readyNow.unread_eq_nil matched
          obtain ⟨_, rfl⟩ := run.eq_of_unread_eq_nil nothing_left
          rw [scan, matched]
          exact .end_ .stay rfl nothing_left
      | failed length => exact rejected (.failed matched)
      | accepted accepted =>
          by_cases nothing : accepted.length = 0
          · exact rejected (.empty matched nothing)
          · have accepts : lexer.Accepts accepted := ⟨matched, nothing⟩
            have some_left := accepts.unread_ne_nil readyNow atEnd
            rcases consumed : lexer.consume begun accepted with ⟨type, whole, last⟩
            obtain ⟨cursor, _, _, isEnded, _⟩ := consume_keeps consumed
            obtain ⟨there, _, _, _⟩ := run.consume inSource nothing some_left consumed
            have shorter :=
              TextCursor.length_unread_advance_lt (Nat.pos_of_ne_zero nothing) some_left
            rw [← cursor] at shorter
            rw [scan_of_accepts accepts consumed]
            by_cases isSkip : type = skipType
            · subst isSkip
              rw [if_pos rfl]
              cases ended : last.ended with
              | true =>
                  rw [ended] at isEnded
                  exact .ended (.skipped run accepts consumed) rfl ended
                    (List.isEmpty_iff.mp isEnded.symm)
              | false =>
                  refine .step (.skipped run accepts consumed) rfl ?_
                  exact inductionHypothesis .none (readyNow.consume coherent consumed) there
                    ended (by omega)
            · rw [if_neg isSkip]
              by_cases isMore : type = moreType
              · subst isMore
                rw [if_pos rfl]
                cases ended : last.ended with
                | true =>
                    rw [ended] at isEnded
                    exact .ended (.cutOff run accepts consumed ended) rfl ended
                      (List.isEmpty_iff.mp isEnded.symm)
                | false =>
                    exact inductionHypothesis (.more run accepts consumed ended) ready inSource
                      ended (by omega)
              · rw [if_neg isMore]
                refine .token (.step (.token run accepts consumed isSkip isMore) .stay) rfl ?_
                intro ended
                rw [ended] at isEnded
                exact List.isEmpty_iff.mp isEnded.symm

/-- A call of a lexer that has not ended goes over the pieces up to the next token. -/
theorem hands_next
    (ready : lexer.IsReady grammar)
    (inSource : lexer.cursor.IsIn source)
    (active : lexer.ended = false) :
    Hands lexer lexer.next.1 lexer.next.2 := by
  rw [next, if_neg (by simp [active])]
  exact hands_scan coherent atEnd .none ready inSource active (Nat.lt_succ_self _)

end Calls

/-- The tokens that so many calls hand out, and the lexer behind them. -/
def calls : (count : Nat) → Lexer → List Token × Lexer
  | 0, lexer => ([], lexer)
  | count + 1, lexer =>
      let (token, next) := lexer.next
      let (tokens, last) := calls count next
      (token :: tokens, last)

/-- Once a lexer has ended, it hands out the end and stays as it is. -/
theorem calls_of_ended
    (ended : lexer.ended = true)
    (count : Nat) :
    calls count lexer = (List.replicate count lexer.cursor.endToken, lexer) := by
  induction count with
  | zero => rfl
  | succ count inductionHypothesis =>
      simp [calls, next, ended, inductionHypothesis, List.replicate_succ]

/-- Calls hand out the tokens of the pieces they go over, and then the end again and again. -/
theorem exists_passage_calls
    {grammar : LexerGrammar}
    (coherent : grammar.network.Coherent)
    (atEnd : AcceptsNothingAtEnd grammar)
    (ready : lexer.IsReady grammar)
    (inSource : lexer.cursor.IsIn source)
    (finished : lexer.ended = true → lexer.cursor.unread = [])
    (count : Nat) :
    ∃ pieces behind ends,
      Passage lexer pieces behind ∧
        (calls count lexer).1 =
          pieces.filterMap Piece.token? ++ List.replicate ends behind.cursor.endToken ∧
        (0 < ends → behind.cursor.unread = []) ∧
        (calls count lexer).2.cursor = behind.cursor ∧
        (calls count lexer).2.errors = behind.errors := by
  induction count generalizing lexer with
  | zero => exact ⟨[], lexer, 0, .stay, rfl, by simp, rfl, rfl⟩
  | succ count inductionHypothesis =>
      cases ended : lexer.ended with
      | true =>
          rw [calls_of_ended ended]
          exact ⟨[], lexer, count + 1, .stay, rfl, fun _ => finished ended, rfl, rfl⟩
      | false =>
          have hands := hands_next coherent atEnd ready inSource ended
          simp only [calls]
          generalize lexer.next = handed at hands
          obtain ⟨token, next⟩ := handed
          dsimp only at hands ⊢
          cases hands with
          | @token pieces _ _ passage isToken finished =>
              obtain ⟨readyNext, there, _, _, _⟩ :=
                passage.describes coherent atEnd ready inSource
              obtain ⟨more, behind, ends, later, tokens, nothing_left, cursor, errors⟩ :=
                inductionHypothesis readyNext there finished
              refine ⟨pieces ++ more, behind, ends, passage.append later, ?_, nothing_left,
                cursor, errors⟩
              rw [tokens, List.filterMap_append, isToken, List.append_assoc]
              rfl
          | @end_ pieces behind passage noToken nothing_left =>
              rw [calls_of_ended rfl]
              refine ⟨pieces, behind, count + 1, passage, ?_, fun _ => nothing_left, rfl, rfl⟩
              rw [noToken, List.replicate_succ]
              rfl

/-- So many calls hand out so many tokens. -/
theorem length_calls
    (count : Nat)
    (lexer : Lexer) :
    (calls count lexer).1.length = count := by
  induction count generalizing lexer with
  | zero => rfl
  | succ count inductionHypothesis =>
      simp only [calls, List.length_cons, inductionHypothesis]

/-- The network of a lexer grammar was read from its encoding. -/
theorem coherent_of_ofData
    {name : String}
    {data : RecognizerData}
    {grammar : LexerGrammar}
    (defined : LexerGrammar.ofData name data = .ok grammar) :
    grammar.network.Coherent := by
  obtain ⟨network, isNetwork, isGrammar⟩ := ok_of_bind defined
  cases isGrammar
  unfold networkOf at isNetwork
  split at isNetwork
  · cases isNetwork
  · rename_i decoded
    split at isNetwork
    · cases isNetwork
      exact Network.coherent_of_decode decoded
    · cases isNetwork

/--
The pieces that calls of a lexer went over are a partition of the text before the cursor: the
tokens handed out are those of the pieces, in order, and behind the end of the text they are the
end of the input; the errors reported are those of the pieces.
-/
structure Covers
    (source : List Char)
    (handedOut : List Token)
    (reported : List SyntaxError)
    (offset : Nat)
    (pieces : List Piece) :
    Prop where
  few : (pieces.filterMap Piece.token?).length ≤ source.length
  handsOut :
    handedOut =
      pieces.filterMap Piece.token? ++
        List.replicate (handedOut.length - (pieces.filterMap Piece.token?).length)
          (Token.ofEnd source.length (TextCursor.lineBehind source)
            (TextCursor.columnBehind source))
  atEnd : (pieces.filterMap Piece.token?).length < handedOut.length → offset = source.length
  reports : reported = pieces.filterMap Piece.error?
  describes : ∀ piece ∈ pieces, piece.Describes source
  inOrder :
    (pieces.filterMap Piece.token?).Pairwise fun earlier later => earlier.stop ≤ later.start
  once : ∀ place < offset, ∃! piece, piece ∈ pieces ∧ piece.Contains place

/--
Whatever number of tokens is taken from a text, its pieces cover the text up to the cursor.

A lexer hands out at most as many tokens as the text has characters, and then the end of the
input, always the same.
-/
theorem calls_cover
    {name : String}
    {data : RecognizerData}
    {grammar : LexerGrammar}
    (defined : LexerGrammar.ofData name data = .ok grammar)
    (hasMode : 0 < grammar.network.modeStarts.size)
    (atEnd : AcceptsNothingAtEnd grammar)
    (text : String)
    (count : Nat) :
    ∃ pieces last,
      Passage (ofText grammar text) pieces last ∧
        (calls count (ofText grammar text)).1.length = count ∧
        Covers text.toList (calls count (ofText grammar text)).1
          (calls count (ofText grammar text)).2.takeErrors.1
          (calls count (ofText grammar text)).2.cursor.offset pieces := by
  have coherent := coherent_of_ofData defined
  have ready : (ofText grammar text).IsReady grammar := ⟨rfl, hasMode, by simp [ofText]⟩
  have inSource : (ofText grammar text).cursor.IsIn text.toList := TextCursor.isIn_ofText text
  obtain ⟨pieces, behind, ends, passage, tokens, nothing_left, cursor, errors⟩ :=
    exists_passage_calls coherent atEnd ready inSource (by simp [ofText]) count
  obtain ⟨_, there, describes, tiles, reported⟩ :=
    passage.describes coherent atEnd ready inSource
  have nonempty : ∀ piece ∈ pieces, piece.start < piece.stop :=
    fun piece member => (describes piece member).start_lt
  have room := (tiles.bounds nonempty).1
  have fewer := List.length_filterMap_le Piece.token? pieces
  have offset_le := there.offset_le
  have isSum := congrArg List.length tokens
  rw [List.length_append, List.length_replicate] at isSum
  refine ⟨pieces, behind, passage, length_calls count _, ?_⟩
  refine {
    few := by omega
    handsOut := ?_
    atEnd := ?_
    reports := ?_
    describes := describes
    inOrder := ?_
    once := ?_ }
  · rw [isSum, Nat.add_sub_cancel_left]
    refine tokens.trans (congrArg (_ ++ ·) ?_)
    rcases Nat.eq_zero_or_pos ends with rfl | some_ends
    · rfl
    · have isEnd := there.offset_eq (nothing_left some_ends)
      rw [TextCursor.endToken, there.line, there.column, isEnd, List.take_length]
  · intro more
    rw [cursor]
    exact there.offset_eq (nothing_left (by omega))
  · rw [takeErrors, errors]
    exact reported
  · refine List.pairwise_filterMap.mpr ((tiles.pairwise nonempty).imp_of_mem ?_)
    intro earlier later isEarlier isLater inOrder first isFirst second isSecond
    rw [((describes earlier isEarlier).token isFirst).2.1,
      ((describes later isLater).token isSecond).1]
    exact inOrder
  · intro place before
    rw [cursor] at before
    exact tiles.existsUnique nonempty (Nat.zero_le place) before

namespace Letters

/-- A lexer of words `B : 'b'` that any number of `A : 'a' -> more` begin; `S : ' ' -> skip`. -/
def data : RecognizerData where
  literalNames := []
  symbolicNames := []
  ruleNames := ["A", "B", "S"]
  channelNames := []
  modeNames := ["DEFAULT_MODE"]
  encodedNetwork :=
    [4, 0, 3, 9, 6, -1, 2, 0, 7, 0, 2, 1, 7, 1, 2, 2, 7, 2, 1, 0, 1, 2, 0, 0,
      3, 1, 1, 3, 2, 5, 3, 1, 0, 0,
      8, 0, 1, 1, 0, 0, 0, 0, 3, 1, 0, 0, 0, 0, 5, 1, 0, 0, 0, 1, 7, 5, 97, 0, 0,
      7, 2, 6, 0, 0, 0, 3, 4, 5, 98, 0, 0, 5, 8, 5, 32, 0, 0, 8, 6, 6, 2, 1, 0,
      1, 0, 2, 3, 0, 0, 6, 0, 0]

/-- The grammar of the data. -/
def grammar : LexerGrammar :=
  (LexerGrammar.ofData "Letters" data).toOption.getD default

set_option maxRecDepth 20000 in
/-- The grammar accepts nothing at the end. -/
theorem acceptsNothingAtEnd : AcceptsNothingAtEnd grammar := by
  have onlyMode : grammar.network.modeStarts.size = 1 := by cbv
  have atEnd : matchToken grammar.network 0 [] = .ended := by cbv
  intro mode accepted matched
  cases mode with
  | zero =>
      rw [atEnd] at matched
      cases matched
  | succ mode =>
      rw [matchToken, Array.getElem?_eq_none (by omega)] at matched
      cases matched

set_option maxRecDepth 20000 in
/-- Of `aab ?a` the first three characters are a token, and the last one is cut off. -/
theorem cover_letters :
    (calls 3 (ofText grammar "aab ?a")).1 =
        [⟨2, "aab", 0, 0, 3, 1, 0, 0⟩, Token.ofEnd 6 1 6, Token.ofEnd 6 1 6] ∧
      ∃ pieces last,
        Passage (ofText grammar "aab ?a") pieces last ∧
          (calls 3 (ofText grammar "aab ?a")).1.length = 3 ∧
          Covers "aab ?a".toList (calls 3 (ofText grammar "aab ?a")).1
            (calls 3 (ofText grammar "aab ?a")).2.takeErrors.1
            (calls 3 (ofText grammar "aab ?a")).2.cursor.offset pieces :=
  ⟨by cbv,
    calls_cover (show LexerGrammar.ofData "Letters" data = .ok grammar by cbv) (by cbv)
      acceptsNothingAtEnd "aab ?a" 3⟩

end Letters

end Lexer

end GrammarService
