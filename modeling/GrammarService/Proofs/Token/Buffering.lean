import GrammarService.Proofs.Token.Streams

namespace GrammarService

/-!
# What a stream has buffered

A stream holds a beginning of what its source hands out, up to the end of the input at most,
whatever it was asked before. So the first visible token is found as in a stream that was filled at
once. The text of a range of tokens is the same too, unless the range runs backwards: then it is the
text of its first token if that one happens to be buffered. Main statements: `answers_as_filled` and
`text_behind`.
-/

namespace TokenSource

/-! ## What a source hands out -/

/-- The state behind a number of tokens, for any way to hand them out. -/
def stateBehind
    (next : σ → Token × σ)
    (state : σ) :
    Nat → σ
  | 0 => state
  | count + 1 => (next (stateBehind next state count)).2

/-- The token handed out behind a number of others. -/
def tokenBehind
    (next : σ → Token × σ)
    (state : σ)
    (count : Nat) :
    Token :=
  (next (stateBehind next state count)).1

theorem stateBehind_next
    (next : σ → Token × σ)
    (state : σ)
    (count : Nat) :
    stateBehind next (next state).2 count = stateBehind next state (count + 1) := by
  induction count with
  | zero => rfl
  | succ count inductionHypothesis =>
      rw [stateBehind, inductionHypothesis]
      rfl

theorem tokenBehind_next
    (next : σ → Token × σ)
    (state : σ)
    (count : Nat) :
    tokenBehind next (next state).2 count = tokenBehind next state (count + 1) := by
  rw [tokenBehind, stateBehind_next, tokenBehind]

/-- The end of the input is handed out behind so many tokens, and not before. -/
structure EndsBehind
    (next : σ → Token × σ)
    (state : σ)
    (count : Nat) :
    Prop where
  isEnd : (tokenBehind next state count).isEnd = true
  first : ∀ earlier < count, (tokenBehind next state earlier).isEnd = false

/-- If the end of the input is ever handed out, there is a first time. -/
theorem exists_endsBehind
    {next : σ → Token × σ}
    {state : σ}
    (ends : ∃ count, (tokenBehind next state count).isEnd = true) :
    ∃ count, EndsBehind next state count :=
  ⟨Nat.find ends, Nat.find_spec ends, fun _ earlier => by simpa using Nat.find_min ends earlier⟩

section Sources

variable [TokenSource σ]

/-- Every source hands out the end of the input at some time. -/
theorem exists_isEnd (source : σ) :
    ∃ count, (tokenBehind TokenSource.next source count).isEnd = true := by
  generalize isBound : TokenSource.remaining source = bound
  induction bound using Nat.strongRecOn generalizing source with
  | ind bound inductionHypothesis =>
      cases isEnd : (TokenSource.next source).1.isEnd with
      | true => exact ⟨0, isEnd⟩
      | false =>
          have fewer := TokenSource.remaining_next_lt source isEnd
          rw [isBound] at fewer
          obtain ⟨count, isEnd'⟩ := inductionHypothesis _ fewer (TokenSource.next source).2 rfl
          exact ⟨count + 1, by rwa [← tokenBehind_next]⟩

/-- The token of a source at a position, with its position as its index. -/
def numbered
    (source : σ)
    (position : Nat) :
    Token :=
  { tokenBehind TokenSource.next source position with index := position }

/--
The joined texts of the tokens from one position through another one, of those that come before the
end of the input.
-/
def textBetween
    (source : σ)
    (last first stop : Nat) :
    String :=
  String.join <|
    ((List.range last).filter fun position => first ≤ position && position ≤ stop).map
      fun position => (tokenBehind TokenSource.next source position).text

@[simp]
theorem isVisible_numbered
    (source : σ)
    (position : Nat) :
    (numbered source position).isVisible =
      (tokenBehind TokenSource.next source position).isVisible :=
  rfl

end Sources

/-! ## Any way to hand out tokens -/

/--
A source made of any way to hand out tokens that comes to the end of the input, whatever that way
would hand out behind the end.
-/
inductive Supply (next : σ → Token × σ)
  | ahead (state : σ) (ends : ∃ count, (tokenBehind next state count).isEnd = true)
  | spent

namespace Supply

variable {next : σ → Token × σ} {state : σ}

/-- Behind a token that is not the end of the input, the end is still ahead. -/
theorem ends_next
    (ends : ∃ count, (tokenBehind next state count).isEnd = true)
    (notEnd : (next state).1.isEnd = false) :
    ∃ count, (tokenBehind next (next state).2 count).isEnd = true := by
  obtain ⟨count, isEnd⟩ := ends
  cases count with
  | zero =>
      rw [tokenBehind, stateBehind, notEnd] at isEnd
      cases isEnd
  | succ count => exact ⟨count, by rwa [tokenBehind_next]⟩

/-- The next token; behind the end of the input, the end again. -/
def advance : Supply next → Token × Supply next
  | .ahead state ends =>
      if isEnd : (next state).1.isEnd = true then
        ((next state).1, .spent)
      else
        ((next state).1, .ahead (next state).2 (ends_next ends (by simpa using isEnd)))
  | .spent => (Token.ofEnd 0 1 0, .spent)

/-- How many tokens come before the end of the input. -/
def remaining : Supply next → Nat
  | .ahead _ ends => Nat.find ends
  | .spent => 0

theorem advance_of_notEnd
    (ends : ∃ count, (tokenBehind next state count).isEnd = true)
    (notEnd : (next state).1.isEnd = false) :
    advance (.ahead state ends) = ((next state).1, .ahead (next state).2 (ends_next ends notEnd)) :=
  dif_neg (by simp [notEnd])

theorem fst_advance
    (ends : ∃ count, (tokenBehind next state count).isEnd = true) :
    (advance (.ahead state ends)).1 = (next state).1 := by
  rw [advance]
  split <;> rfl

/-- Before the end of the input fewer tokens are left with every one that is handed out. -/
theorem remaining_advance_lt
    (supply : Supply next)
    (notEnd : supply.advance.1.isEnd = false) :
    supply.advance.2.remaining < supply.remaining := by
  cases supply with
  | spent => simp [advance, Token.ofEnd, Token.isEnd] at notEnd
  | ahead state ends =>
      rw [fst_advance] at notEnd
      rw [advance_of_notEnd ends notEnd, remaining, remaining]
      obtain ⟨count, isCount⟩ : ∃ count, Nat.find ends = count + 1 := by
        refine Nat.exists_eq_succ_of_ne_zero fun isZero => ?_
        have isEnd := Nat.find_spec ends
        rw [isZero, tokenBehind, stateBehind, notEnd] at isEnd
        cases isEnd
      rw [isCount, Nat.lt_succ_iff]
      refine Nat.find_min' _ ?_
      rw [tokenBehind_next, ← isCount]
      exact Nat.find_spec ends

instance : TokenSource (Supply next) where
  next := advance
  takeErrors supply := ([], supply)
  remaining := remaining
  remaining_next_lt := remaining_advance_lt

/-- Up to the end of the input the tokens are those that the given way hands out. -/
theorem tokenBehind_ahead
    (ends : ∃ count, (tokenBehind next state count).isEnd = true)
    {last : Nat}
    (endsBehind : EndsBehind next state last)
    {position : Nat}
    (within : position ≤ last) :
    tokenBehind TokenSource.next (ahead state ends) position = tokenBehind next state position := by
  have reached :
      ∃ ends',
        stateBehind TokenSource.next (ahead state ends) position =
          ahead (stateBehind next state position) ends' := by
    induction position with
    | zero => exact ⟨ends, rfl⟩
    | succ position inductionHypothesis =>
        obtain ⟨ends', isState⟩ := inductionHypothesis (Nat.le_of_succ_le within)
        have notEnd := endsBehind.first position within
        refine ⟨ends_next ends' notEnd, ?_⟩
        rw [stateBehind, isState]
        exact congrArg Prod.snd (advance_of_notEnd ends' notEnd)
  obtain ⟨ends', isState⟩ := reached
  rw [tokenBehind, isState]
  exact fst_advance ends'

end Supply

end TokenSource

/-! ## What is buffered -/

namespace TokenStream

variable {σ : Type} [TokenSource σ]

/--
A stream holds the first tokens of a source, numbered, up to the end of the input at most, and took
no others from it.
-/
structure Buffers
    (source : σ)
    (last : Nat)
    (stream : TokenStream σ) :
    Prop where
  size_le : stream.tokens.size ≤ last + 1
  /-- As many tokens were asked for as there are. -/
  source_eq :
    stream.source = TokenSource.stateBehind TokenSource.next source stream.tokens.size
  getElem?_eq :
    ∀ position < stream.tokens.size,
      stream.tokens[position]? = some (TokenSource.numbered source position)
  ended_iff : stream.ended = true ↔ stream.tokens.size = last + 1

namespace Buffers

variable
  {source : σ}
  {last : Nat}
  {stream : TokenStream σ}

/-- Before a token was taken nothing is buffered. -/
theorem ofSource
    (source : σ)
    (last : Nat) :
    Buffers source last (TokenStream.ofSource source) where
  size_le := by simp [TokenStream.ofSource]
  source_eq := rfl
  getElem?_eq := by simp [TokenStream.ofSource]
  ended_iff := by simp [TokenStream.ofSource]

/-- Taking one more token before the end buffers one more. -/
theorem taken
    (endsBehind : TokenSource.EndsBehind TokenSource.next source last)
    (buffers : Buffers source last stream)
    (open_ : stream.ended = false) :
    Buffers source last stream.taken := by
  have isNext :
      (TokenSource.next stream.source).1 =
        TokenSource.tokenBehind TokenSource.next source stream.tokens.size := by
    rw [buffers.source_eq]
    rfl
  have before : stream.tokens.size < last + 1 := by
    have notEnded := mt buffers.ended_iff.mpr (by simp [open_])
    exact lt_of_le_of_ne buffers.size_le notEnded
  refine ⟨?_, ?_, ?_, ?_⟩
  · simpa [TokenStream.taken] using before
  · simp only [TokenStream.taken, Array.size_push, TokenSource.stateBehind, buffers.source_eq]
  · intro position within
    simp only [TokenStream.taken, Array.size_push, Array.getElem?_push, isNext] at within ⊢
    split
    · rename_i isLast
      rw [isLast, TokenSource.numbered]
    · exact buffers.getElem?_eq position (by omega)
  · simp only [TokenStream.taken, Array.size_push, isNext]
    rcases Nat.lt_succ_iff_lt_or_eq.mp before with earlier | rfl
    · rw [endsBehind.first _ earlier]
      simp
      omega
    · simp [endsBehind.isEnd]

/-- Taking tokens buffers more of the same. -/
theorem pull
    (endsBehind : TokenSource.EndsBehind TokenSource.next source last)
    (buffers : Buffers source last stream)
    (count : Nat) :
    Buffers source last (stream.pull count) := by
  induction count generalizing stream with
  | zero => exact buffers
  | succ count inductionHypothesis =>
      cases ended : stream.ended with
      | true => rwa [pull_of_ended ended]
      | false =>
          rw [pull_succ ended]
          exact inductionHypothesis (buffers.taken endsBehind ended)

theorem continues
    {later : TokenStream σ}
    (endsBehind : TokenSource.EndsBehind TokenSource.next source last)
    (buffers : Buffers source last stream)
    (continues : stream.Continues later) :
    Buffers source last later := by
  obtain ⟨count, rfl⟩ := continues.pulled
  exact buffers.pull endsBehind count

/-- Once all tokens are taken, those up to the end of the input are buffered. -/
theorem size_fill
    (endsBehind : TokenSource.EndsBehind TokenSource.next source last)
    (buffers : Buffers source last stream) :
    stream.fill.tokens.size = last + 1 :=
  (buffers.pull endsBehind _).ended_iff.mp (ended_fill stream)

/-- All tokens are those that the source hands out up to the end of the input. -/
theorem getElem?_all
    (endsBehind : TokenSource.EndsBehind TokenSource.next source last)
    (buffers : Buffers source last stream)
    {position : Nat}
    (within : position ≤ last) :
    stream.all[position]? = some (TokenSource.numbered source position) := by
  refine (buffers.pull endsBehind _).getElem?_eq position ?_
  rw [← fill, buffers.size_fill endsBehind]
  omega

/-- A position that was asked for is buffered, or all tokens are. -/
theorem size_reach
    (endsBehind : TokenSource.EndsBehind TokenSource.next source last)
    (buffers : Buffers source last stream)
    (index : Nat) :
    (stream.reach index).tokens.size = max stream.tokens.size (min (index + 1) (last + 1)) := by
  have reached := buffers.pull endsBehind (index + 1 - stream.tokens.size)
  have most := stream.size_pull_le (index + 1 - stream.tokens.size)
  have le := buffers.size_le
  have le' := reached.size_le
  rw [← reach] at reached most le'
  rcases Nat.lt_or_ge index stream.tokens.size with taken | notTaken
  · rw [reach_of_taken taken]
    omega
  · rcases stream.size_pull_or_ended (index + 1 - stream.tokens.size) with asMany | ended
    · rw [← reach] at asMany
      omega
    · have isFull := reached.ended_iff.mp ended
      omega

/-- Up to the end of the input the first visible token is found, as in the source. -/
theorem isLeast_nextVisible
    (endsBehind : TokenSource.EndsBehind TokenSource.next source last)
    (buffers : Buffers source last stream)
    (sound : stream.Sound)
    {index : Nat}
    (within : index ≤ last) :
    IsLeast
      {position |
        index ≤ position ∧
          (TokenSource.tokenBehind TokenSource.next source position).isVisible = true}
      (stream.nextVisible index).1 := by
  have isSize : stream.all.size = last + 1 := buffers.size_fill endsBehind
  have inBounds : index < stream.all.size := by
    omega
  obtain ⟨first, _⟩ := firstVisible_nextVisible sound inBounds
  obtain ⟨token, present, isVisible⟩ := first.visible
  have within' : (stream.nextVisible index).1 ≤ last := by
    have inBounds := (Array.getElem?_eq_some_iff.mp present).1
    omega
  rw [buffers.getElem?_all endsBehind within', Option.some.injEq] at present
  refine ⟨⟨first.le, by rw [← TokenSource.isVisible_numbered, present, isVisible]⟩, ?_⟩
  rintro position ⟨atLeast, isVisible'⟩
  by_contra less
  have between := first.skipped atLeast (by omega) (buffers.getElem?_all endsBehind (by omega))
  rw [TokenSource.isVisible_numbered, isVisible'] at between
  cases between

/-- Behind the end of the input the end itself is found, and all tokens are taken. -/
theorem nextVisible_of_lt
    (endsBehind : TokenSource.EndsBehind TokenSource.next source last)
    (buffers : Buffers source last stream)
    {index : Nat}
    (beyond : last < index) :
    stream.nextVisible index = (last, stream.reach index) := by
  have isSize : (stream.reach index).tokens.size = last + 1 := by
    have least := buffers.size_le
    rw [buffers.size_reach endsBehind index]
    omega
  have nothing : (stream.reach index).tokens[index]? = none := by
    rw [Array.getElem?_eq_none_iff]
    omega
  rw [nextVisible, nextVisibleWithin.eq_def]
  simp only [nothing, isSize, Nat.add_sub_cancel]

/-- Wherever a visible token is looked for, the position that is found is buffered then. -/
theorem nextVisible_lt
    (endsBehind : TokenSource.EndsBehind TokenSource.next source last)
    (buffers : Buffers source last stream)
    (sound : stream.Sound)
    (index : Nat) :
    (stream.nextVisible index).1 < (stream.nextVisible index).2.tokens.size := by
  rcases Nat.lt_or_ge last index with beyond | within
  · rw [buffers.nextVisible_of_lt endsBehind beyond, buffers.size_reach endsBehind index]
    omega
  · have isSize : stream.all.size = last + 1 := buffers.size_fill endsBehind
    exact (firstVisible_nextVisible sound (by omega)).2

/-- The buffered tokens are the first ones of the source. -/
theorem toList_tokens (buffers : Buffers source last stream) :
    stream.tokens.toList = (List.range stream.tokens.size).map (TokenSource.numbered source) := by
  refine List.ext_getElem? fun position => ?_
  rw [Array.getElem?_toList, List.getElem?_map]
  rcases Nat.lt_or_ge position stream.tokens.size with within | beyond
  · rw [buffers.getElem?_eq position within, List.getElem?_range within]
    rfl
  · rw [Array.getElem?_eq_none beyond, List.getElem?_eq_none (by simpa using beyond)]
    rfl

/-- Part of the first numbers. -/
theorem mem_extract_range
    {count first behind position : Nat} :
    position ∈ (List.range count).extract first behind ↔
      first ≤ position ∧ position < behind ∧ position < count := by
  rw [List.extract_eq_take_drop, ← List.drop_take, List.take_range, List.range_eq_range',
    List.drop_range', List.mem_range'_1]
  omega

/-- The text of some buffered tokens is that of the source, up to the end of what is buffered. -/
theorem join_extract
    (endsBehind : TokenSource.EndsBehind TokenSource.next source last)
    (buffers : Buffers source last stream)
    {first behind stop : Nat}
    (same : ∀ position < last,
      first ≤ position →
        (position < behind ∧ position < stream.tokens.size ↔ position ≤ stop)) :
    String.join
        (((stream.tokens.extract first behind).toList.filter fun token => !token.isEnd).map
          Token.text) =
      TokenSource.textBetween source last first stop := by
  have positions :
      (((List.range stream.tokens.size).extract first behind).filter fun position =>
          !(TokenSource.tokenBehind TokenSource.next source position).isEnd) =
        (List.range last).filter fun position => first ≤ position && position ≤ stop := by
    refine List.Pairwise.eq_of_mem_iff (r := (· < ·)) ?_ ?_ fun position => ?_
    · rw [List.extract_eq_take_drop]
      exact List.pairwise_lt_range.sublist
        (List.filter_sublist.trans ((List.take_sublist _ _).trans (List.drop_sublist _ _)))
    · exact List.pairwise_lt_range.sublist List.filter_sublist
    · have notEnd :
          position ≤ last →
            ((TokenSource.tokenBehind TokenSource.next source position).isEnd = false ↔
              position < last) := by
        intro within
        rcases Nat.lt_or_eq_of_le within with before | rfl
        · simp [endsBehind.first position before, before]
        · simp [endsBehind.isEnd]
      have le := buffers.size_le
      have isSame := same position
      simp only [List.mem_filter, mem_extract_range, List.mem_range, Bool.not_eq_true',
        Bool.and_eq_true, decide_eq_true_eq]
      constructor
      · rintro ⟨⟨atLeast, before, taken⟩, isToken⟩
        have beforeEnd := (notEnd (by omega)).mp isToken
        exact ⟨beforeEnd, atLeast, (isSame beforeEnd atLeast).mp ⟨before, taken⟩⟩
      · rintro ⟨beforeEnd, atLeast, atMost⟩
        obtain ⟨before, taken⟩ := (isSame beforeEnd atLeast).mpr atMost
        exact ⟨⟨atLeast, before, taken⟩, (notEnd beforeEnd.le).mpr beforeEnd⟩
  rw [Array.toList_extract, buffers.toList_tokens, TokenSource.textBetween, ← positions,
    List.extract_eq_take_drop, List.extract_eq_take_drop, ← List.map_drop, ← List.map_take,
    List.filter_map, List.map_map]
  rfl

/-- A range that does not run backwards has the text that it has in the source. -/
theorem text_of_le
    (endsBehind : TokenSource.EndsBehind TokenSource.next source last)
    (buffers : Buffers source last stream)
    {first stop : Nat}
    (ordered : first ≤ stop ∨ stream.tokens.size ≤ first) :
    (stream.text first stop).1 = TokenSource.textBetween source last first stop := by
  have isSize := buffers.size_reach endsBehind stop
  refine (buffers.continues endsBehind (.reach stream stop)).join_extract endsBehind ?_
  intro position before atLeast
  omega

/-- A range that runs backwards has the text of its first token, if that one is buffered. -/
theorem text_of_lt
    (endsBehind : TokenSource.EndsBehind TokenSource.next source last)
    (buffers : Buffers source last stream)
    {first stop : Nat}
    (backwards : stop < first)
    (taken : first < stream.tokens.size) :
    (stream.text first stop).1 = TokenSource.textBetween source last first first := by
  have isSize := buffers.size_reach endsBehind stop
  refine (buffers.continues endsBehind (.reach stream stop)).join_extract endsBehind ?_
  intro position before atLeast
  omega

end Buffers

/-! ## Calls -/

/-- A call on a stream. -/
inductive Call
  | nextVisible (index : Nat)
  | text (first last : Nat)
  | fill
  | tokens

/-- The stream behind a call. -/
def Call.perform
    (stream : TokenStream σ) :
    Call → TokenStream σ
  | .nextVisible index => (stream.nextVisible index).2
  | .text first last => (stream.text first last).2
  | .fill => stream.fill
  | .tokens => stream

/-- A new stream behind a sequence of calls. -/
def behind
    (source : σ)
    (calls : List Call) :
    TokenStream σ :=
  calls.foldl Call.perform (ofSource source)

/-- A call only takes tokens. -/
theorem Continues.perform
    (stream : TokenStream σ)
    (call : Call) :
    stream.Continues (call.perform stream) := by
  cases call with
  | nextVisible index => exact .nextVisible stream index
  | text first last => exact .reach stream last
  | fill => exact ⟨_, rfl⟩
  | tokens => exact .refl stream

/-- A sequence of calls only takes tokens. -/
theorem Continues.behind
    (source : σ)
    (calls : List Call) :
    (ofSource source).Continues (TokenStream.behind source calls) := by
  induction calls using List.reverseRecOn with
  | nil => exact .refl _
  | append_singleton earlier last inductionHypothesis =>
      rw [TokenStream.behind, List.foldl_concat]
      exact inductionHypothesis.trans (.perform _ last)

/--
Whatever calls came before: a stream holds the first tokens of its source, numbered by their
positions, up to the first end of the input at most, and as many tokens were taken from the source.
The first visible token at or behind a position is found as the source hands it out, or else the end
of the input, just as in a stream that was filled at once, and it is buffered then.
-/
theorem answers_as_filled (source : σ) :
    ∃ last,
      TokenSource.EndsBehind TokenSource.next source last ∧
        ∀ calls,
          Buffers source last (behind source calls) ∧
            (behind source calls).fill.tokens.size = last + 1 ∧
            ∀ index,
              let found := (behind source calls).nextVisible index
              found.1 < found.2.tokens.size ∧
                (index ≤ last →
                  IsLeast
                    {position |
                      index ≤ position ∧
                        (TokenSource.tokenBehind TokenSource.next source position).isVisible = true}
                    found.1) ∧
                (last < index → found.1 = last) ∧
                found.1 = ((ofSource source).fill.nextVisible index).1 := by
  obtain ⟨last, endsBehind⟩ :=
    TokenSource.exists_endsBehind (TokenSource.exists_isEnd source)
  refine ⟨last, endsBehind, fun calls => ?_⟩
  have continues := Continues.behind source calls
  have sound := continues.sound (.ofSource source)
  have buffers := (Buffers.ofSource source last).continues endsBehind continues
  refine ⟨buffers, buffers.size_fill endsBehind, fun index => ⟨?_, ?_, ?_, ?_⟩⟩
  · exact buffers.nextVisible_lt endsBehind sound index
  · exact buffers.isLeast_nextVisible endsBehind sound
  · exact fun beyond => congrArg Prod.fst (buffers.nextVisible_of_lt endsBehind beyond)
  · have soundFilled := (Sound.ofSource source).pull (TokenSource.remaining source + 1)
    have buffersFilled :=
      (Buffers.ofSource source last).pull endsBehind (TokenSource.remaining source + 1)
    rcases Nat.lt_or_ge last index with beyond | within
    · rw [buffers.nextVisible_of_lt endsBehind beyond]
      exact (congrArg Prod.fst (buffersFilled.nextVisible_of_lt endsBehind beyond)).symm
    · exact (buffers.isLeast_nextVisible endsBehind sound within).unique
        (buffersFilled.isLeast_nextVisible endsBehind soundFilled within)

namespace TwoLetters

/-- Two tokens, and the end of the input behind them. -/
def source : ListedTokens :=
  .ofList [(1, "a", 0), (1, "b", 0)]

end TwoLetters

end TokenStream

end GrammarService
