import GrammarService.Proofs.Token.Visible

namespace GrammarService

/-!
# What a parser sees of a stream

Of the tokens of a stream a parser sees the visible ones, and of these what they are and where they
are in the source text. It does not see how many hidden tokens come between them, nor how the tokens
are numbered. Streams that look the same may differ in all of that.
-/

namespace Token

/--
Looking at tokens in this way shows all that a parser makes use of. It may leave out the offsets of
a token, its number in the stream, and its channel, which only matters for whether it is visible.
-/
structure Shows (look : Token → Token) : Prop where
  type : ∀ token, (look token).type = token.type
  text : ∀ token, (look token).text = token.text
  line : ∀ token, (look token).line = token.line
  column : ∀ token, (look token).column = token.column

namespace Shows

variable {look : Token → Token} {first second : Token} (shows : Shows look)
  (alike : look first = look second)

include shows alike

/-- Tokens that look the same have the same type. -/
theorem type_eq : first.type = second.type := by
  rw [← shows.type, alike, shows.type]

/-- Tokens that look the same end the input both or neither. -/
theorem isEnd_eq : first.isEnd = second.isEnd := by
  rw [isEnd, isEnd, shows.type_eq alike]

/-- Messages quote tokens that look the same in the same way. -/
theorem quoted_eq : first.quoted = second.quoted := by
  rw [quoted, quoted, ← shows.text first, alike, shows.text]

/-- Errors at tokens that look the same are the same. -/
theorem atToken_eq (message : String) :
    SyntaxError.atToken first message = SyntaxError.atToken second message := by
  simp only [SyntaxError.atToken, SyntaxError.mk.injEq, and_true]
  exact ⟨by rw [← shows.line, alike, shows.line], by rw [← shows.column, alike, shows.column]⟩

end Shows

/-- A token without its offsets and its number in the stream. -/
def unplaced (token : Token) : Token :=
  { token with
    start := 0
    stop := 0
    index := 0 }

/-- Neither the offsets nor the number of a token matter to a parser. -/
theorem shows_unplaced : Shows unplaced where
  type _ := rfl
  text _ := rfl
  line _ := rfl
  column _ := rfl

end Token

namespace TokenStream

variable {σ τ : Type} [TokenSource σ] [TokenSource τ] {stream : TokenStream σ}
  {other : TokenStream τ} {look : Token → Token} {count position otherPosition : Nat}

/-- What is seen of a stream. -/
def seen
    (stream : TokenStream σ)
    (look : Token → Token) :
    List Token :=
  stream.visible.map look

/-- What is seen of a stream does not depend on how many tokens were taken. -/
theorem Continues.seen
    {later : TokenStream σ}
    (continues : stream.Continues later) :
    later.seen look = stream.seen look := by
  rw [TokenStream.seen, visible, continues.all]
  rfl

/-- Streams that look the same have as many visible tokens. -/
theorem visibleCount_eq_of_seen
    (alike : stream.seen look = other.seen look) :
    stream.visibleCount = other.visibleCount := by
  have lengths := congrArg List.length alike
  rw [visibleCount_eq, visibleCount_eq]
  simpa [seen] using lengths

/-- Behind as many visible tokens the same is seen. -/
theorem StandsAt.look_eq
    (stands : stream.StandsAt count position)
    (otherStands : other.StandsAt count otherPosition)
    (alike : stream.seen look = other.seen look) :
    look (stream.token position) = look (other.token otherPosition) := by
  have isThere := congrArg (·[count]?) alike
  simpa [seen, stands.getElem?_visible, otherStands.getElem?_visible] using isThere

/-- Streams that look the same, and positions of theirs behind as many visible tokens. -/
structure Abreast
    (look : Token → Token)
    (stream : TokenStream σ)
    (other : TokenStream τ)
    (position otherPosition : Nat) :
    Prop where
  seen : stream.seen look = other.seen look
  stands : ∃ count, stream.StandsAt count position ∧ other.StandsAt count otherPosition

namespace Abreast

variable (abreast : Abreast look stream other position otherPosition)

include abreast

/-- The tokens at the positions look the same. -/
theorem look_eq : look (stream.token position) = look (other.token otherPosition) := by
  obtain ⟨count, stands, otherStands⟩ := abreast.stands
  exact stands.look_eq otherStands abreast.seen

/-- Taking more tokens changes nothing. -/
theorem continues
    {later : TokenStream σ}
    {otherLater : TokenStream τ}
    (further : stream.Continues later)
    (otherFurther : other.Continues otherLater) :
    Abreast look later otherLater position otherPosition where
  seen := by rw [further.seen, otherFurther.seen, abreast.seen]
  stands := by
    obtain ⟨count, stands, otherStands⟩ := abreast.stands
    exact ⟨count, stands.continues further, otherStands.continues otherFurther⟩

/-- The next visible tokens are behind as many visible tokens, too. -/
theorem next
    (shows : Token.Shows look)
    (notEnd : (stream.token position).isEnd = false) :
    Abreast look (stream.nextVisible (position + 1)).2 (other.nextVisible (otherPosition + 1)).2
      (stream.nextVisible (position + 1)).1 (other.nextVisible (otherPosition + 1)).1 where
  seen := by
    rw [(Continues.nextVisible stream _).seen, (Continues.nextVisible other _).seen, abreast.seen]
  stands := by
    obtain ⟨count, stands, otherStands⟩ := abreast.stands
    rw [shows.isEnd_eq abreast.look_eq] at notEnd
    exact ⟨count + 1, stands.next (shows.isEnd_eq abreast.look_eq ▸ notEnd),
      otherStands.next notEnd⟩

end Abreast

/-- The tokens from one position through another, the end of the input left out. -/
def quoted
    (stream : TokenStream σ)
    (first last : Nat) :
    List Token :=
  ((stream.all.toList.take (last + 1)).drop first).filter fun token => !token.isEnd

/-- What is quoted does not depend on how many tokens were taken. -/
theorem Continues.quoted
    {later : TokenStream σ}
    (continues : stream.Continues later)
    (first last : Nat) :
    later.quoted first last = stream.quoted first last := by
  rw [TokenStream.quoted, continues.all]
  rfl

/-- Up to a token that was taken, the tokens taken are the tokens of the stream. -/
theorem StandsAt.take_tokens (stands : stream.StandsAt count position) :
    stream.tokens.toList.take (position + 1) = stream.all.toList.take (position + 1) := by
  refine List.ext_getElem? fun place => ?_
  rw [List.getElem?_take, List.getElem?_take]
  split
  · have inBounds : place < stream.tokens.size := by
      have taken := stands.taken
      omega
    have present := Array.getElem?_eq_getElem inBounds
    rw [Array.getElem?_toList, Array.getElem?_toList, present, getElem?_all_of_some present]
  · rfl

/-- The text up to a token that was taken is made up of the texts of the tokens. -/
theorem StandsAt.text_eq
    {start : Nat}
    (stands : stream.StandsAt count position)
    (le : start ≤ position) :
    (stream.text start position).1 =
      String.join ((stream.quoted start position).map Token.text) := by
  have isStop : start + (position - start) + 1 = position + 1 := by omega
  have extracted :
      (stream.tokens.extract start (position + 1)).toList =
        (stream.all.toList.take (position + 1)).drop start := by
    rw [Array.toList_extract, ← stands.take_tokens, List.drop_take]
  simp only [text, reach_of_taken stands.taken, isStop, extracted]
  rfl

/-- Behind more visible tokens comes a later position. -/
theorem StandsAt.position_le
    {start least : Nat}
    (first : stream.StandsAt least start)
    (last : stream.StandsAt count position)
    (atMost : least ≤ count) :
    start ≤ position := by
  by_contra before
  have longer :
      (stream.visibleBefore (position + 1)).length ≤ (stream.visibleBefore start).length := by
    have sublist :
        (stream.all.toList.take (position + 1)).Sublist (stream.all.toList.take start) :=
      (List.take_prefix_take_left (by omega)).sublist
    exact (sublist.filter _).length_le
  rw [visibleBefore_succ last.getElem?_all last.isVisible, List.length_append, last.before,
    first.before, List.length_singleton] at longer
  omega

/-- From one visible position through another come the visible tokens between them. -/
theorem StandsAt.visible_between
    {start least : Nat}
    (first : stream.StandsAt least start)
    (last : stream.StandsAt count position)
    (atMost : least ≤ count) :
    ((stream.all.toList.take (position + 1)).drop start).filter Token.isVisible =
      (stream.visible.take (count + 1)).drop least := by
  have le := first.position_le last atMost
  have through : stream.visibleBefore (position + 1) = stream.visible.take (count + 1) := by
    have length : (stream.visibleBefore (position + 1)).length = count + 1 := by
      rw [visibleBefore_succ last.getElem?_all last.isVisible, List.length_append, last.before,
        List.length_singleton]
    rw [stream.visible_eq_append (position + 1), ← length, List.take_left']
    rfl
  have cut :
      stream.visibleBefore (position + 1) =
        stream.visibleBefore start ++
          ((stream.all.toList.take (position + 1)).drop start).filter Token.isVisible := by
    have isTake :
        stream.all.toList.take start = (stream.all.toList.take (position + 1)).take start := by
      rw [List.take_take, Nat.min_eq_left (by omega)]
    rw [visibleBefore, visibleBefore, isTake, ← List.filter_append, List.take_append_drop]
  rw [← through, cut, ← first.before, List.drop_left' rfl]

/-- Before a later position there are no fewer visible tokens. -/
theorem StandsAt.count_le
    {start least : Nat}
    (first : stream.StandsAt least start)
    (last : stream.StandsAt count position)
    (le : start ≤ position) :
    least ≤ count := by
  have sublist :
      (stream.all.toList.take start).Sublist (stream.all.toList.take position) :=
    (List.take_prefix_take_left le).sublist
  rw [← first.before, ← last.before]
  exact (sublist.filter _).length_le

/-- Between as many visible tokens the same is quoted, but for hidden tokens. -/
theorem Abreast.seen_quoted
    {start otherStart : Nat}
    (shows : Token.Shows look)
    (first : Abreast look stream other start otherStart)
    (last : Abreast look stream other position otherPosition)
    (le : start ≤ position) :
    otherStart ≤ otherPosition ∧
      ((stream.quoted start position).filter Token.isVisible).map look =
        ((other.quoted otherStart otherPosition).filter Token.isVisible).map look := by
  obtain ⟨least, firstStands, otherFirstStands⟩ := first.stands
  obtain ⟨count, lastStands, otherLastStands⟩ := last.stands
  have atMost := firstStands.count_le lastStands le
  have ofSeen :
      ∀ {ρ : Type} [TokenSource ρ] {stream : TokenStream ρ} {start position : Nat},
        stream.StandsAt least start →
          stream.StandsAt count position →
            ((stream.quoted start position).filter Token.isVisible).map look =
              (((stream.seen look).take (count + 1)).drop least).filter
                fun token => !token.isEnd := by
    intro ρ _ stream start position first last
    have sameEnd : (fun token => !Token.isEnd (look token)) = fun token => !token.isEnd := by
      funext token
      rw [Token.isEnd, shows.type]
      rfl
    rw [quoted, List.filter_filter]
    simp only [Bool.and_comm]
    rw [← List.filter_filter, first.visible_between last atMost, TokenStream.seen,
      ← List.map_take, ← List.map_drop, List.filter_map, Function.comp_def, sameEnd]
  refine ⟨otherFirstStands.position_le otherLastStands atMost, ?_⟩
  rw [ofSeen firstStands lastStands, ofSeen otherFirstStands otherLastStands, first.seen]

end TokenStream

end GrammarService
