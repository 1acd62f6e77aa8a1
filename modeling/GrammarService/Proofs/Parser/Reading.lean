import GrammarService.Proofs.Parser.Moves

namespace GrammarService

/-!
# What a walk has read

A walk reads the visible tokens in order. It stays at the end of the input, which it may read again.
-/

namespace Parser

variable {σ : Type} [TokenSource σ]

/--
A walk has read the given tokens: the visible ones before its position, and perhaps the end of the
input several times, where it stays then.
-/
structure HasRead
    (visible : List Token)
    (run : Run σ)
    (read : List Token) :
    Prop where
  sound : run.tokens.Sound
  visible : run.tokens.visible = visible
  taken : run.position < run.tokens.tokens.size
  isVisible : run.current.isVisible = true
  read :
    ∃ repeats,
      read = run.tokens.visibleBefore run.position ++ List.replicate repeats run.current ∧
        (0 < repeats → run.current.isEnd = true)

namespace HasRead

variable {visible read : List Token} {run : Run σ}

/-- What has been read shows in the tokens and the position only. -/
theorem congr
    (hasRead : HasRead visible run read)
    {after : Run σ}
    (tokens : after.tokens = run.tokens)
    (position : after.position = run.position) :
    HasRead visible after read := by
  have current : after.current = run.current := by
    simp [Run.current, tokens, position]
  exact {
    sound := by rw [tokens]; exact hasRead.sound
    visible := by rw [tokens]; exact hasRead.visible
    taken := by rw [tokens, position]; exact hasRead.taken
    isVisible := by rw [current]; exact hasRead.isVisible
    read := by rw [tokens, position, current]; exact hasRead.read }

/-- Looking at tokens reads nothing. -/
theorem quiet
    (hasRead : HasRead visible run read)
    {after : Run σ}
    (quiet : Quiet run after) :
    HasRead visible after read := by
  have position : after.position = run.position := by
    rw [quiet.same]
  have all := quiet.continues.all
  have current : after.current = run.current := by
    rw [Run.current, position]
    exact quiet.continues.token_eq hasRead.taken
  exact {
    sound := quiet.continues.sound hasRead.sound
    visible := by
      rw [TokenStream.visible, all]
      exact hasRead.visible
    taken := by
      rw [position]
      have kept := quiet.continues.kept (Array.getElem?_eq_getElem hasRead.taken)
      exact (Array.getElem?_eq_some_iff.mp kept).1
    isVisible := by rw [current]; exact hasRead.isVisible
    read := by
      rw [position, current, TokenStream.visibleBefore, all]
      exact hasRead.read }

/-- The current token is one of all tokens. -/
theorem getElem?_all
    (hasRead : HasRead visible run read) :
    run.tokens.all[run.position]? = some run.current := by
  have present := Array.getElem?_eq_getElem hasRead.taken
  rw [TokenStream.getElem?_all_of_some present]
  simp [Run.current, TokenStream.token, Array.getD_eq_getD_getElem?, present]

/-- A walk that begins has not read anything. -/
theorem start
    {tokens : TokenStream σ}
    (sound : tokens.Sound)
    (cache : PredictionCache) :
    HasRead tokens.visible (Run.start tokens cache) [] := by
  have continues := TokenStream.Continues.nextVisible tokens 0
  obtain ⟨first, taken⟩ := TokenStream.firstVisible_nextVisible sound sound.size_all_pos
  obtain ⟨token, present, isVisible⟩ := first.visible
  have isCurrent : (Run.start tokens cache).current = token := by
    have same := TokenStream.getElem?_all_of_some (Array.getElem?_eq_getElem taken)
    rw [continues.all, present, Option.some.injEq] at same
    rw [same]
    simp [Run.current, Run.start, TokenStream.token, Array.getD_eq_getD_getElem?, taken]
  exact {
    sound := continues.sound sound
    visible := congrArg (fun all => all.toList.filter Token.isVisible) continues.all
    taken := taken
    isVisible := by rw [isCurrent, isVisible]
    read := by
      refine ⟨0, ?_, by simp⟩
      have before := first.visibleBefore_eq
      simp only [TokenStream.visibleBefore, List.take_zero, List.filter_nil] at before
      simp only [Run.start, TokenStream.visibleBefore, continues.all, List.replicate_zero,
        List.append_nil]
      exact before.symm }

/-- Consuming reads the current token. -/
theorem consumed
    (hasRead : HasRead visible run read) :
    HasRead visible run.consumed (read ++ [run.current]) := by
  obtain ⟨repeats, isRead, ended⟩ := hasRead.read
  have present := hasRead.getElem?_all
  cases isEnd : run.current.isEnd with
  | true =>
      have tokens : run.consumed.tokens = run.tokens := by
        simp [Run.consumed, isEnd]
      have position : run.consumed.position = run.position := by
        simp [Run.consumed, isEnd]
      have current : run.consumed.current = run.current := by
        simp [Run.current, tokens, position]
      exact { hasRead.congr tokens position with
        read := by
          refine ⟨repeats + 1, ?_, fun _ => by rw [current, isEnd]⟩
          rw [isRead, tokens, position, current, List.replicate_succ', List.append_assoc] }
  | false =>
      have tokens :
          run.consumed.tokens = (run.tokens.nextVisible (run.position + 1)).2 := by
        simp [Run.consumed, isEnd]
      have position :
          run.consumed.position = (run.tokens.nextVisible (run.position + 1)).1 := by
        simp [Run.consumed, isEnd]
      have continues := TokenStream.Continues.nextVisible run.tokens (run.position + 1)
      have inBounds : run.position + 1 < run.tokens.all.size := by
        have notLast := mt (hasRead.sound.isEnd_iff present).mpr (by simp [isEnd])
        have isThere := (Array.getElem?_eq_some_iff.mp present).1
        omega
      obtain ⟨first, taken⟩ := TokenStream.firstVisible_nextVisible hasRead.sound inBounds
      obtain ⟨token, isToken, isVisible⟩ := first.visible
      have current : run.consumed.current = token := by
        have same := TokenStream.getElem?_all_of_some (Array.getElem?_eq_getElem taken)
        rw [continues.all, isToken, Option.some.injEq] at same
        rw [same, Run.current, tokens, position]
        simp [TokenStream.token, Array.getD_eq_getD_getElem?, taken]
      have noRepeats : repeats = 0 := by
        rcases Nat.eq_zero_or_pos repeats with isZero | isPositive
        · exact isZero
        · rw [isEnd] at ended
          cases ended isPositive
      exact {
        sound := by rw [tokens]; exact continues.sound hasRead.sound
        visible := by
          rw [TokenStream.visible, tokens, continues.all]
          exact hasRead.visible
        taken := by rw [tokens, position]; exact taken
        isVisible := by rw [current, isVisible]
        read := by
          refine ⟨0, ?_, by simp⟩
          have before := first.visibleBefore_eq
          rw [TokenStream.visibleBefore_succ present hasRead.isVisible] at before
          rw [TokenStream.visibleBefore, tokens, position, continues.all, isRead, noRepeats]
          simpa [TokenStream.visibleBefore] using before.symm }

/-- What has been read are the first visible tokens, of which only the last may be repeated. -/
theorem getElem?_read
    (hasRead : HasRead visible run read)
    {place : Nat}
    (inBounds : place < read.length) :
    read[place]? = visible[min place (visible.length - 1)]? := by
  obtain ⟨repeats, rfl, ended⟩ := hasRead.read
  have split := hasRead.visible ▸ run.tokens.visible_eq_append run.position
  rcases Nat.eq_zero_or_pos repeats with rfl | isPositive
  · simp only [List.replicate_zero, List.append_nil] at inBounds ⊢
    have notBehind : min place (visible.length - 1) = place := by
      rw [split, List.length_append]
      omega
    rw [notBehind, split, List.getElem?_append_left inBounds]
  · have last := hasRead.sound.visible_eq hasRead.getElem?_all (ended isPositive)
    rw [hasRead.visible] at last
    rw [last, List.length_append, List.length_singleton, Nat.add_sub_cancel]
    rcases Nat.lt_or_ge place (run.tokens.visibleBefore run.position).length with
      before | behind
    · rw [Nat.min_eq_left (Nat.le_of_lt before), List.getElem?_append_left before,
        List.getElem?_append_left before]
    · rw [Nat.min_eq_right behind, List.getElem?_append_right behind,
        List.getElem?_append_right (Nat.le_refl _)]
      simp only [List.length_append, List.length_replicate] at inBounds
      simp [List.getElem?_replicate]
      omega

end HasRead

end Parser

end GrammarService
