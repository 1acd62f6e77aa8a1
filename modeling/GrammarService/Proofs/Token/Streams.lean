import Mathlib
import GrammarService.Token.Stream

namespace GrammarService

/-!
# The tokens of a stream

Whatever has been taken from a source so far, the stream stands for the same tokens: those it
holds once all are taken. The operations of a stream only take more of them, and the search for a
visible token finds the first one.
-/

namespace TokenStream

variable {σ : Type} [TokenSource σ]

/-- The end of the input was taken exactly if the last token is the end, and only the last is. -/
structure Sound (stream : TokenStream σ) : Prop where
  ended_iff :
    stream.ended = true ↔ ∃ token, stream.tokens.back? = some token ∧ token.isEnd = true
  onlyLast :
    ∀ {position : Nat} {token : Token},
      stream.tokens[position]? = some token →
        token.isEnd = true →
          position + 1 = stream.tokens.size

/-- All tokens of a stream, those still in the source included. -/
def all (stream : TokenStream σ) : Array Token :=
  stream.fill.tokens

/-- The tokens of a stream that parsers see. -/
def visible (stream : TokenStream σ) : List Token :=
  stream.all.toList.filter Token.isVisible

/-- The stream once one more token was taken. -/
def taken (stream : TokenStream σ) : TokenStream σ where
  source := (TokenSource.next stream.source).2
  tokens :=
    stream.tokens.push { (TokenSource.next stream.source).1 with index := stream.tokens.size }
  ended := (TokenSource.next stream.source).1.isEnd

/-- Nothing is taken after the end. -/
theorem pull_of_ended
    {stream : TokenStream σ}
    (ended : stream.ended = true)
    (count : Nat) :
    stream.pull count = stream := by
  cases count with
  | zero => rfl
  | succ count => simp [pull, ended]

/-- Before the end, tokens are taken one by one. -/
theorem pull_succ
    {stream : TokenStream σ}
    (open_ : stream.ended = false)
    (count : Nat) :
    stream.pull (count + 1) = stream.taken.pull count := by
  simp [pull, open_, taken]

/-- Taking tokens twice is taking them at once. -/
theorem pull_add
    (stream : TokenStream σ)
    (first second : Nat) :
    stream.pull (first + second) = (stream.pull first).pull second := by
  induction first generalizing stream with
  | zero => simp [pull]
  | succ first inductionHypothesis =>
      cases ended : stream.ended with
      | true => simp [pull_of_ended ended]
      | false =>
          rw [Nat.succ_add, pull_succ ended, pull_succ ended, inductionHypothesis]

/-- A stream is taken to its end by as many tokens as its source can have left. -/
theorem ended_pull
    (count : Nat)
    (stream : TokenStream σ)
    (enough : TokenSource.remaining stream.source < count) :
    (stream.pull count).ended = true := by
  induction count generalizing stream with
  | zero => omega
  | succ count inductionHypothesis =>
      cases ended : stream.ended with
      | true => rw [pull_of_ended ended, ended]
      | false =>
          rw [pull_succ ended]
          cases isEnd : (TokenSource.next stream.source).1.isEnd with
          | true => rwa [pull_of_ended isEnd]
          | false =>
              have shorter := TokenSource.remaining_next_lt stream.source isEnd
              exact inductionHypothesis _ (Nat.lt_of_lt_of_le shorter (by omega))

/-- Taking all tokens takes the end. -/
theorem ended_fill (stream : TokenStream σ) : stream.fill.ended = true :=
  ended_pull _ stream (Nat.lt_succ_self _)

/-- Filling a stream whose end was taken changes nothing. -/
theorem fill_of_ended
    {stream : TokenStream σ}
    (ended : stream.ended = true) :
    stream.fill = stream :=
  pull_of_ended ended _

/-- Two ways to take tokens that both come to the end come to the same stream. -/
theorem pull_eq_of_ended
    {stream : TokenStream σ}
    {first second : Nat}
    (firstEnded : (stream.pull first).ended = true)
    (secondEnded : (stream.pull second).ended = true) :
    stream.pull first = stream.pull second := by
  rcases Nat.le_total first second with shorter | shorter
  · obtain ⟨more, rfl⟩ := Nat.exists_eq_add_of_le shorter
    rw [pull_add, pull_of_ended firstEnded]
  · obtain ⟨more, rfl⟩ := Nat.exists_eq_add_of_le shorter
    rw [pull_add, pull_of_ended secondEnded]

/-- Taking some tokens first does not change what all tokens are. -/
@[simp] theorem fill_pull
    (stream : TokenStream σ)
    (count : Nat) :
    (stream.pull count).fill = stream.fill := by
  have filled := ended_fill (stream.pull count)
  unfold fill at filled ⊢
  rw [← pull_add] at filled ⊢
  exact pull_eq_of_ended filled (ended_fill stream)

@[simp] theorem all_pull
    (stream : TokenStream σ)
    (count : Nat) :
    (stream.pull count).all = stream.all := by
  simp [all]

@[simp] theorem all_reach
    (stream : TokenStream σ)
    (index : Nat) :
    (stream.reach index).all = stream.all :=
  all_pull stream _

/-- Tokens that were taken stay where they are. -/
theorem getElem?_pull_of_some
    {stream : TokenStream σ}
    {position : Nat}
    {token : Token}
    (present : stream.tokens[position]? = some token)
    (count : Nat) :
    (stream.pull count).tokens[position]? = some token := by
  induction count generalizing stream with
  | zero => exact present
  | succ count inductionHypothesis =>
      cases ended : stream.ended with
      | true => rwa [pull_of_ended ended]
      | false =>
          rw [pull_succ ended]
          refine inductionHypothesis ?_
          obtain ⟨inBounds, rfl⟩ := Array.getElem?_eq_some_iff.mp present
          simp [taken, Array.getElem?_push_lt inBounds]

/-- A token that was taken is one of all tokens, at the same position. -/
theorem getElem?_all_of_some
    {stream : TokenStream σ}
    {position : Nat}
    {token : Token}
    (present : stream.tokens[position]? = some token) :
    stream.all[position]? = some token :=
  getElem?_pull_of_some present _

/-- As many tokens are taken as are asked for, unless the end comes first. -/
theorem size_pull_or_ended
    (stream : TokenStream σ)
    (count : Nat) :
    (stream.pull count).tokens.size = stream.tokens.size + count ∨
      (stream.pull count).ended = true := by
  induction count generalizing stream with
  | zero => exact .inl rfl
  | succ count inductionHypothesis =>
      cases ended : stream.ended with
      | true => exact .inr (by rw [pull_of_ended ended, ended])
      | false =>
          rw [pull_succ ended]
          rcases inductionHypothesis stream.taken with size | isEnded
          · left
            rw [size]
            simp [taken]
            omega
          · exact .inr isEnded

/-- Once a position was asked for, it holds the token it holds among all tokens. -/
theorem getElem?_reach
    (stream : TokenStream σ)
    (index : Nat) :
    (stream.reach index).tokens[index]? = stream.all[index]? := by
  rw [← all_reach stream index]
  rcases size_pull_or_ended stream (index + 1 - stream.tokens.size) with size | isEnded
  · have inBounds : index < (stream.reach index).tokens.size := by
      unfold reach
      omega
    rw [Array.getElem?_eq_getElem inBounds]
    exact (getElem?_all_of_some (Array.getElem?_eq_getElem inBounds)).symm
  · rw [all, @fill_of_ended σ _ (stream.reach index) isEnded]

namespace Sound

omit [TokenSource σ] in
/-- A stream that has not taken a token is sound. -/
theorem ofSource (source : σ) : (TokenStream.ofSource source).Sound where
  ended_iff := by simp [TokenStream.ofSource]
  onlyLast := by simp [TokenStream.ofSource]

/-- Taking a token before the end keeps a stream sound. -/
theorem taken
    {stream : TokenStream σ}
    (sound : stream.Sound)
    (open_ : stream.ended = false) :
    stream.taken.Sound where
  ended_iff := by
    simp [TokenStream.taken, Token.isEnd]
  onlyLast := by
    intro position token present isEnd
    simp only [TokenStream.taken, Array.getElem?_push, Array.size_push] at present ⊢
    split at present
    · omega
    · exfalso
      have isLast := sound.onlyLast present isEnd
      have ended : stream.ended = true := by
        refine sound.ended_iff.mpr ⟨token, ?_, isEnd⟩
        rw [Array.back?, ← present]
        congr 1
        omega
      rw [open_] at ended
      cases ended

/-- Taking tokens keeps a stream sound. -/
theorem pull
    {stream : TokenStream σ}
    (sound : stream.Sound)
    (count : Nat) :
    (stream.pull count).Sound := by
  induction count generalizing stream with
  | zero => exact sound
  | succ count inductionHypothesis =>
      cases ended : stream.ended with
      | true => rwa [pull_of_ended ended]
      | false =>
          rw [pull_succ ended]
          exact inductionHypothesis (sound.taken ended)

/-- Asking for a position keeps a stream sound. -/
theorem reach
    {stream : TokenStream σ}
    (sound : stream.Sound)
    (index : Nat) :
    (stream.reach index).Sound :=
  sound.pull _

variable {stream : TokenStream σ}

/-- The last of all tokens is the end of the input. -/
theorem back?_all (sound : stream.Sound) :
    ∃ token, stream.all.back? = some token ∧ token.isEnd = true :=
  (sound.pull _).ended_iff.mp (ended_fill stream)

/-- Of all tokens only the last is the end of the input. -/
theorem isEnd_iff
    (sound : stream.Sound)
    {position : Nat}
    {token : Token}
    (present : stream.all[position]? = some token) :
    token.isEnd = true ↔ position + 1 = stream.all.size := by
  constructor
  · exact (sound.pull _).onlyLast present
  · intro isLast
    obtain ⟨last, back, isEnd⟩ := sound.back?_all
    rw [Array.back?, ← isLast, Nat.add_sub_cancel, present] at back
    cases back
    exact isEnd

/-- There always is a token: the end of the input at least. -/
theorem size_all_pos (sound : stream.Sound) : 0 < stream.all.size := by
  obtain ⟨last, back, _⟩ := sound.back?_all
  rw [Array.back?] at back
  obtain ⟨inBounds, _⟩ := Array.getElem?_eq_some_iff.mp back
  omega

end Sound

/-- One stream comes out of another by taking tokens. -/
structure Continues
    (before after : TokenStream σ) :
    Prop where
  pulled : ∃ count, after = before.pull count

namespace Continues

variable {before after : TokenStream σ}

theorem all (continues : before.Continues after) : after.all = before.all := by
  obtain ⟨count, rfl⟩ := continues.pulled
  exact all_pull before count

theorem sound
    (continues : before.Continues after)
    (sound : before.Sound) :
    after.Sound := by
  obtain ⟨count, rfl⟩ := continues.pulled
  exact sound.pull count

/-- Tokens that were taken stay where they are. -/
theorem kept
    (continues : before.Continues after)
    {position : Nat}
    {token : Token}
    (present : before.tokens[position]? = some token) :
    after.tokens[position]? = some token := by
  obtain ⟨count, rfl⟩ := continues.pulled
  exact getElem?_pull_of_some present count

theorem refl (stream : TokenStream σ) : stream.Continues stream where
  pulled := ⟨0, rfl⟩

theorem trans
    {first second third : TokenStream σ}
    (earlier : first.Continues second)
    (later : second.Continues third) :
    first.Continues third where
  pulled := by
    obtain ⟨count, rfl⟩ := earlier.pulled
    obtain ⟨more, rfl⟩ := later.pulled
    exact ⟨count + more, (pull_add first count more).symm⟩

/-- Asking for a position only takes tokens. -/
theorem reach
    (stream : TokenStream σ)
    (index : Nat) :
    stream.Continues (stream.reach index) where
  pulled := ⟨_, rfl⟩

/-- Looking for a visible token only takes tokens. -/
theorem nextVisibleWithin
    (count index : Nat)
    (stream : TokenStream σ) :
    stream.Continues (stream.nextVisibleWithin count index).2 := by
  induction count generalizing index stream with
  | zero =>
      unfold TokenStream.nextVisibleWithin
      dsimp only
      split
      · exact reach stream index
      · split <;> exact reach stream index
  | succ count inductionHypothesis =>
      unfold TokenStream.nextVisibleWithin
      dsimp only
      split
      · exact reach stream index
      · split
        · exact reach stream index
        · exact (reach stream index).trans (inductionHypothesis _ _)

/-- Looking for a visible token only takes tokens. -/
theorem nextVisible
    (stream : TokenStream σ)
    (index : Nat) :
    stream.Continues (stream.nextVisible index).2 :=
  nextVisibleWithin _ index stream

/-- A token that was taken is the same token afterwards. -/
theorem token_eq
    {before after : TokenStream σ}
    (continues : before.Continues after)
    {position : Nat}
    (taken : position < before.tokens.size) :
    after.token position = before.token position := by
  have present := Array.getElem?_eq_getElem taken
  simp [token, Array.getD_eq_getD_getElem?, continues.kept present, present]

end Continues

/-- No errors come with the tokens of a stream, however many of them are taken. -/
def ErrorFree (stream : TokenStream σ) : Prop :=
  ∀ count, (stream.pull count).takeErrors = ([], stream.pull count)

theorem ErrorFree.continues
    {before after : TokenStream σ}
    (errorFree : before.ErrorFree)
    (continues : before.Continues after) :
    after.ErrorFree := by
  obtain ⟨count, rfl⟩ := continues.pulled
  intro more
  rw [← pull_add]
  exact errorFree (count + more)

theorem ErrorFree.takeErrors_eq
    {stream : TokenStream σ}
    (errorFree : stream.ErrorFree) :
    stream.takeErrors = ([], stream) :=
  errorFree 0

/-- Listed tokens come without errors. -/
theorem errorFree_listed (stream : TokenStream ListedTokens) : stream.ErrorFree :=
  fun _ => rfl

/-- A position holds the first visible token at or behind another position. -/
structure FirstVisible
    (tokens : Array Token)
    (index position : Nat) :
    Prop where
  le : index ≤ position
  visible : ∃ token, tokens[position]? = some token ∧ token.isVisible = true
  skipped :
    ∀ {between : Nat} {token : Token},
      index ≤ between →
        between < position →
          tokens[between]? = some token →
            token.isVisible = false

/-- No more tokens are taken than are asked for. -/
theorem size_pull_le
    (stream : TokenStream σ)
    (count : Nat) :
    (stream.pull count).tokens.size ≤ stream.tokens.size + count := by
  induction count generalizing stream with
  | zero => simp [pull]
  | succ count inductionHypothesis =>
      cases ended : stream.ended with
      | true =>
          rw [pull_of_ended ended]
          omega
      | false =>
          rw [pull_succ ended]
          refine Nat.le_trans (inductionHypothesis _) ?_
          simp [taken]
          omega

/-- There are no more tokens than the bound says. -/
theorem size_all_le_bound (stream : TokenStream σ) : stream.all.size ≤ stream.bound :=
  size_pull_le stream _

/-- The search for a visible token finds the first one, which was taken then. -/
theorem firstVisible_nextVisibleWithin
    (count : Nat)
    {index : Nat}
    {stream : TokenStream σ}
    (sound : stream.Sound)
    (inBounds : index < stream.all.size)
    (enough : stream.all.size ≤ index + count + 1) :
    FirstVisible stream.all index (stream.nextVisibleWithin count index).1 ∧
      (stream.nextVisibleWithin count index).1 <
        (stream.nextVisibleWithin count index).2.tokens.size := by
  induction count generalizing index stream with
  | zero =>
      have present := Array.getElem?_eq_getElem inBounds
      have reached := getElem?_reach stream index
      rw [present] at reached
      have isEnd := (sound.isEnd_iff present).mpr (by omega)
      have isVisible : stream.all[index].isVisible = true := by
        simp [Token.isVisible, isEnd]
      simp only [nextVisibleWithin, reached, isVisible, ↓reduceIte]
      refine ⟨⟨Nat.le_refl _, ⟨_, present, isVisible⟩, by omega⟩, ?_⟩
      exact (Array.getElem?_eq_some_iff.mp reached).1
  | succ count inductionHypothesis =>
      have present := Array.getElem?_eq_getElem inBounds
      have reached := getElem?_reach stream index
      rw [present] at reached
      cases isVisible : stream.all[index].isVisible with
      | true =>
          simp only [nextVisibleWithin, reached, isVisible, ↓reduceIte]
          refine ⟨⟨Nat.le_refl _, ⟨_, present, isVisible⟩, by omega⟩, ?_⟩
          exact (Array.getElem?_eq_some_iff.mp reached).1
      | false =>
          have notLast : index + 1 ≠ stream.all.size := by
            intro isLast
            have isEnd := (sound.isEnd_iff present).mpr isLast
            simp [Token.isVisible, isEnd] at isVisible
          obtain ⟨found, wasTaken⟩ :=
            @inductionHypothesis (index + 1) (stream.reach index) (sound.reach index)
              (by rw [all_reach]; omega) (by rw [all_reach]; omega)
          rw [all_reach] at found
          simp only [nextVisibleWithin, reached, isVisible, Bool.false_eq_true, ↓reduceIte]
          refine ⟨⟨Nat.le_of_succ_le found.le, found.visible, ?_⟩, wasTaken⟩
          intro between token atLeast less isBetween
          rcases Nat.eq_or_lt_of_le atLeast with rfl | behind
          · rw [present] at isBetween
            cases isBetween
            exact isVisible
          · exact found.skipped behind less isBetween

/-- The next visible position holds the first visible token, which was taken then. -/
theorem firstVisible_nextVisible
    {stream : TokenStream σ}
    (sound : stream.Sound)
    {index : Nat}
    (inBounds : index < stream.all.size) :
    FirstVisible stream.all index (stream.nextVisible index).1 ∧
      (stream.nextVisible index).1 < (stream.nextVisible index).2.tokens.size := by
  have bounded := size_all_le_bound stream
  exact firstVisible_nextVisibleWithin _ sound inBounds (by omega)

/-- Asking for a position that was taken takes nothing. -/
theorem reach_of_taken
    {stream : TokenStream σ}
    {index : Nat}
    (taken : index < stream.tokens.size) :
    stream.reach index = stream := by
  rw [reach, Nat.sub_eq_zero_of_le taken]
  rfl

/-- Looking for a visible token that was taken finds it and takes nothing. -/
theorem nextVisibleWithin_of_taken
    (count : Nat)
    {stream : TokenStream σ}
    {index position : Nat}
    (first : FirstVisible stream.all index position)
    (taken : position < stream.tokens.size)
    (near : position ≤ index + count) :
    stream.nextVisibleWithin count index = (position, stream) := by
  induction count generalizing index with
  | zero =>
      obtain rfl : index = position := Nat.le_antisymm first.le near
      obtain ⟨token, present, isVisible⟩ := first.visible
      have isTaken := getElem?_reach stream index
      rw [reach_of_taken taken, present] at isTaken
      simp [nextVisibleWithin, reach_of_taken taken, isTaken, isVisible]
  | succ count inductionHypothesis =>
      have indexTaken : index < stream.tokens.size := Nat.lt_of_le_of_lt first.le taken
      have present := Array.getElem?_eq_getElem indexTaken
      have inAll := getElem?_all_of_some present
      rcases Nat.eq_or_lt_of_le first.le with rfl | before
      · obtain ⟨token, isToken, isVisible⟩ := first.visible
        rw [inAll, Option.some.injEq] at isToken
        simp [nextVisibleWithin, reach_of_taken indexTaken, present, isToken, isVisible]
      · have notVisible := first.skipped (Nat.le_refl _) before inAll
        have further : FirstVisible stream.all (index + 1) position :=
          ⟨before, first.visible, fun isBehind => first.skipped (by omega)⟩
        simp [nextVisibleWithin, reach_of_taken indexTaken, present, notVisible,
          inductionHypothesis further (by omega)]

/-- Once a visible token was looked for, it is found again and nothing more is taken. -/
theorem nextVisible_again
    {stream later : TokenStream σ}
    (sound : stream.Sound)
    {index : Nat}
    (inBounds : index < stream.all.size)
    (continues : (stream.nextVisible index).2.Continues later) :
    later.nextVisible index = ((stream.nextVisible index).1, later) := by
  obtain ⟨first, taken⟩ := firstVisible_nextVisible sound inBounds
  have sameTokens : later.all = stream.all :=
    continues.all.trans (Continues.nextVisible stream index).all
  have takenLater : (stream.nextVisible index).1 < later.tokens.size := by
    have present := continues.kept (Array.getElem?_eq_getElem taken)
    exact (Array.getElem?_eq_some_iff.mp present).1
  have bounded : later.tokens.size ≤ later.bound := by
    simp only [bound]
    omega
  refine nextVisibleWithin_of_taken _ (sameTokens ▸ first) takenLater ?_
  omega

/-- The text of tokens that were taken stays the same, and asking for it takes nothing. -/
theorem text_of_taken
    {stream later : TokenStream σ}
    {first last : Nat}
    (continues : stream.Continues later)
    (firstTaken : first < stream.tokens.size)
    (lastTaken : last < stream.tokens.size) :
    later.text first last = ((stream.text first last).1, later) := by
  have takenLater : last < later.tokens.size := by
    have present := continues.kept (Array.getElem?_eq_getElem lastTaken)
    exact (Array.getElem?_eq_some_iff.mp present).1
  have sameTokens :
      later.tokens.extract first (first + (last - first) + 1) =
        stream.tokens.extract first (first + (last - first) + 1) := by
    refine Array.ext_getElem? fun offset => ?_
    simp only [Array.getElem?_extract]
    have firstLater : first < later.tokens.size := by
      have present := continues.kept (Array.getElem?_eq_getElem firstTaken)
      exact (Array.getElem?_eq_some_iff.mp present).1
    rw [Nat.min_eq_left (by omega), Nat.min_eq_left (by omega)]
    split
    · rename_i inside
      have present : first + offset < stream.tokens.size := by omega
      rw [continues.kept (Array.getElem?_eq_getElem present), Array.getElem?_eq_getElem present]
    · rfl
  simp only [text, reach_of_taken takenLater, reach_of_taken lastTaken, sameTokens]

/-- The visible tokens before a position. -/
def visibleBefore
    (stream : TokenStream σ)
    (position : Nat) :
    List Token :=
  (stream.all.toList.take position).filter Token.isVisible

/-- Up to the first visible token no visible tokens are added. -/
theorem FirstVisible.visibleBefore_eq
    {stream : TokenStream σ}
    {index position : Nat}
    (first : FirstVisible stream.all index position) :
    stream.visibleBefore position = stream.visibleBefore index := by
  obtain ⟨distance, rfl⟩ := Nat.exists_eq_add_of_le first.le
  have none_between :
      ((stream.all.toList.drop index).take distance).filter Token.isVisible = [] := by
    rw [List.filter_eq_nil_iff]
    intro token member
    obtain ⟨offset, inBounds, rfl⟩ := List.mem_iff_getElem.mp member
    rw [List.length_take, List.length_drop] at inBounds
    have isBetween :
        stream.all[index + offset]? =
          some ((stream.all.toList.drop index).take distance)[offset] := by
      rw [List.getElem_take, List.getElem_drop, Array.getElem_toList]
      exact Array.getElem?_eq_getElem _
    rw [first.skipped (Nat.le_add_right index offset) (by omega) isBetween]
    simp
  rw [visibleBefore, List.take_add, List.filter_append, none_between, List.append_nil]
  rfl

/-- Behind a visible token there is one visible token more. -/
theorem visibleBefore_succ
    {stream : TokenStream σ}
    {position : Nat}
    {token : Token}
    (present : stream.all[position]? = some token)
    (isVisible : token.isVisible = true) :
    stream.visibleBefore (position + 1) = stream.visibleBefore position ++ [token] := by
  have isThere : stream.all.toList[position]? = some token := by
    simpa using present
  rw [visibleBefore, List.take_add_one, isThere, List.filter_append]
  simp [visibleBefore, isVisible]

/-- The visible tokens before a position are the first of all visible tokens. -/
theorem visible_eq_append
    (stream : TokenStream σ)
    (position : Nat) :
    stream.visible =
      stream.visibleBefore position ++
        (stream.all.toList.drop position).filter Token.isVisible := by
  rw [visible, visibleBefore, ← List.filter_append, List.take_append_drop]

/-- The end of the input is the last visible token. -/
theorem Sound.visible_eq
    {stream : TokenStream σ}
    (sound : stream.Sound)
    {position : Nat}
    {token : Token}
    (present : stream.all[position]? = some token)
    (isEnd : token.isEnd = true) :
    stream.visible = stream.visibleBefore position ++ [token] := by
  have isLast := (sound.isEnd_iff present).mp isEnd
  have isVisible : token.isVisible = true := by
    simp [Token.isVisible, isEnd]
  rw [← visibleBefore_succ present isVisible, visible, visibleBefore, isLast]
  congr 1
  rw [List.take_of_length_le (by simp)]

/-- The visible tokens are those before the end of the input, and the end. -/
theorem Sound.visible_eq_append_end
    {stream : TokenStream σ}
    (sound : stream.Sound) :
    ∃ tokens ending,
      stream.visible = tokens ++ [ending] ∧
        ending.isEnd = true ∧ ∀ token ∈ tokens, token.isEnd = false := by
  obtain ⟨ending, isLast, isEnd⟩ := sound.back?_all
  rw [Array.back?_eq_getElem?] at isLast
  refine ⟨_, ending, sound.visible_eq isLast isEnd, isEnd, ?_⟩
  intro token member
  obtain ⟨place, isTaken⟩ := List.mem_iff_getElem?.mp (List.mem_of_mem_filter member)
  rw [List.getElem?_take] at isTaken
  split at isTaken
  · rename_i before
    rw [Array.getElem?_toList] at isTaken
    by_contra isEndToo
    have isLastToo := (sound.isEnd_iff isTaken).mp (by simpa using isEndToo)
    omega
  · cases isTaken

end TokenStream

end GrammarService
