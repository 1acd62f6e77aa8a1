import GrammarService.Proofs.Token.Streams

namespace GrammarService

/-!
# Standing at a visible token

Whoever reads a stream goes from one visible token to the next. Where it stands is known by how many
visible tokens come before, however many hidden ones there are and however many were taken.
-/

namespace TokenStream

variable {σ : Type} [TokenSource σ]

/-- A position holds a visible token that was taken, behind so many other visible ones. -/
structure StandsAt
    (stream : TokenStream σ)
    (count position : Nat) :
    Prop where
  sound : stream.Sound
  taken : position < stream.tokens.size
  isVisible : (stream.token position).isVisible = true
  before : (stream.visibleBefore position).length = count

namespace StandsAt

variable {stream : TokenStream σ} {count position : Nat}

/-- The token is one of all tokens. -/
theorem getElem?_all (stands : stream.StandsAt count position) :
    stream.all[position]? = some (stream.token position) := by
  have present := Array.getElem?_eq_getElem stands.taken
  rw [getElem?_all_of_some present]
  simp [token, Array.getD_eq_getD_getElem?, present]

/-- The token is that of the visible ones which comes behind so many others. -/
theorem getElem?_visible (stands : stream.StandsAt count position) :
    stream.visible[count]? = some (stream.token position) := by
  have split := stream.visible_eq_append (position + 1)
  rw [visibleBefore_succ stands.getElem?_all stands.isVisible, List.append_assoc] at split
  rw [split, ← stands.before, List.getElem?_append_right (Nat.le_refl _)]
  simp

theorem lt_length (stands : stream.StandsAt count position) : count < stream.visible.length :=
  (List.getElem?_eq_some_iff.mp stands.getElem?_visible).1

/-- The end of the input is where the visible tokens end. -/
theorem isEnd_iff (stands : stream.StandsAt count position) :
    (stream.token position).isEnd = true ↔ count + 1 = stream.visible.length := by
  obtain ⟨tokens, ending, isSplit, isEnd, notBefore⟩ := stands.sound.visible_eq_append_end
  have isThere := stands.getElem?_visible
  have inBounds := stands.lt_length
  rw [isSplit] at isThere inBounds ⊢
  rw [List.length_append, List.length_singleton] at inBounds ⊢
  rcases Nat.lt_or_ge count tokens.length with inside | behind
  · rw [List.getElem?_append_left inside] at isThere
    rw [notBefore _ (List.mem_of_getElem? isThere)]
    simp
    omega
  · have isLast : count = tokens.length := by omega
    rw [isLast, List.getElem?_append_right (Nat.le_refl _), Nat.sub_self] at isThere
    rw [← Option.some.inj isThere, isEnd, isLast]
    simp

/-- Taking more tokens changes nothing. -/
theorem continues
    {later : TokenStream σ}
    (stands : stream.StandsAt count position)
    (continues : stream.Continues later) :
    later.StandsAt count position where
  sound := continues.sound stands.sound
  taken := by
    have kept := continues.kept (Array.getElem?_eq_getElem stands.taken)
    exact (Array.getElem?_eq_some_iff.mp kept).1
  isVisible := by
    rw [continues.token_eq stands.taken]
    exact stands.isVisible
  before := by
    rw [visibleBefore, continues.all]
    exact stands.before

/-- The first visible token behind a position stands behind the visible ones up to there. -/
theorem ofNextVisible
    {index : Nat}
    (sound : stream.Sound)
    (inBounds : index < stream.all.size) :
    (stream.nextVisible index).2.StandsAt (stream.visibleBefore index).length
      (stream.nextVisible index).1 := by
  have continues := Continues.nextVisible stream index
  obtain ⟨first, taken⟩ := firstVisible_nextVisible sound inBounds
  obtain ⟨token, present, isVisible⟩ := first.visible
  refine ⟨continues.sound sound, taken, ?_, ?_⟩
  · have same := getElem?_all_of_some (Array.getElem?_eq_getElem taken)
    rw [continues.all, present, Option.some.injEq] at same
    rw [← isVisible, same]
    simp [TokenStream.token, Array.getD_eq_getD_getElem?, taken]
  · rw [← first.visibleBefore_eq, visibleBefore, continues.all]
    rfl

/-- The first visible token has none before it. -/
theorem first (sound : stream.Sound) :
    (stream.nextVisible 0).2.StandsAt 0 (stream.nextVisible 0).1 := by
  have stands := ofNextVisible sound sound.size_all_pos
  simpa [visibleBefore] using stands

/-- The next visible token has one more before it. -/
theorem next
    (stands : stream.StandsAt count position)
    (notEnd : (stream.token position).isEnd = false) :
    (stream.nextVisible (position + 1)).2.StandsAt (count + 1)
      (stream.nextVisible (position + 1)).1 := by
  have present := stands.getElem?_all
  have inBounds : position + 1 < stream.all.size := by
    have notLast := mt (stands.sound.isEnd_iff present).mpr (by simp [notEnd])
    have isThere := (Array.getElem?_eq_some_iff.mp present).1
    omega
  have behind := ofNextVisible stands.sound inBounds
  rw [visibleBefore_succ present stands.isVisible, List.length_append, stands.before] at behind
  exact behind

end StandsAt

/-- So many tokens are visible. -/
theorem visibleCount_eq (stream : TokenStream σ) :
    stream.visibleCount = stream.visible.length := by
  rw [visibleCount, visible, ← List.countP_eq_length_filter, all, Array.countP_toList]

end TokenStream

end GrammarService
