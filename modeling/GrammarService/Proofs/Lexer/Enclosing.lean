import GrammarService.Proofs.Lexer.Enclosure

namespace GrammarService

/-!
# From an opening text to the first closing text

Behind the opening text of a rule such as `'/*' .*? '*/'` threads wait at once for the characters of
the closing text, as many as its beginnings that were just read, and for any character. The ones
that have read more come first, so the first closing text that is complete is the first one in the
input, and all other threads are dropped then. Main statement: `matchToken_enclosed`.
-/

namespace Lexer

variable {network : Network}

/-! ## Beginnings of the closing text -/

section Beginnings

variable
  {closing gap : List Char}
  {character : Char}

/-- The lengths of the beginnings of a closing text that a gap ends with, the longest first. -/
def begun (closing gap : List Char) : List Nat :=
  (List.range closing.length).reverse.filter fun position => closing.take position <:+ gap

/-- Where the beginnings that go on with a character get to. -/
def advanced
    (closing : List Char)
    (character : Char)
    (positions : List Nat) :
    List Nat :=
  (positions.filter fun position => closing[position]? = some character).map (· + 1)

theorem mem_begun
    {position : Nat} :
    position ∈ begun closing gap ↔ position < closing.length ∧ closing.take position <:+ gap := by
  simp [begun]

theorem pairwise_begun : (begun closing gap).Pairwise (· > ·) :=
  (List.pairwise_reverse.mpr List.pairwise_lt_range).filter _

/-- In front of any gap nothing of the closing text was read. -/
theorem begun_nil (some_closing : closing ≠ []) : begun closing [] = [0] := by
  refine List.Pairwise.eq_of_mem_iff pairwise_begun (List.pairwise_singleton _ 0) ?_
  have some_character := List.length_pos_of_ne_nil some_closing
  simp only [mem_begun, List.suffix_nil, List.take_eq_nil_iff, List.mem_singleton]
  grind

/-- A gap ends with one character more of the closing text if that character is the next one. -/
theorem take_succ_suffix_iff
    {position : Nat}
    (within : position < closing.length) :
    closing.take (position + 1) <:+ gap ++ [character] ↔
      closing[position]? = some character ∧ closing.take position <:+ gap := by
  rw [List.take_add_one, List.getElem?_eq_getElem within, Option.toList_some,
    List.suffix_append_inj_of_length_eq (by simp), and_comm]
  simp

/-- As long as the closing text is not complete, its beginnings advance with the gap. -/
theorem advanced_begun
    (some_closing : closing ≠ [])
    (incomplete : ¬ closing <:+ gap ++ [character]) :
    advanced closing character (begun closing gap) ++ [0] =
      begun closing (gap ++ [character]) := by
  have sorted :
      (advanced closing character (begun closing gap) ++ [0]).Pairwise (· > ·) := by
    refine List.pairwise_append.mpr ⟨?_, List.pairwise_singleton _ 0, ?_⟩
    · refine List.Pairwise.map (· + 1) ?_ (pairwise_begun.filter _)
      exact fun _ _ after => Nat.succ_lt_succ after
    · simp only [advanced, List.mem_map, List.mem_singleton]
      rintro _ ⟨position, _, rfl⟩ _ rfl
      exact Nat.succ_pos position
  refine List.Pairwise.eq_of_mem_iff sorted pairwise_begun ?_
  rintro (_ | position)
  · simp [mem_begun, List.length_pos_of_ne_nil some_closing]
  · have isAdvanced :
        position + 1 ∈ advanced closing character (begun closing gap) ++ [0] ↔
          position < closing.length ∧ closing[position]? = some character ∧
            closing.take position <:+ gap := by
      simp only [advanced, List.mem_append, List.mem_map, List.mem_filter, mem_begun]
      grind
    rw [isAdvanced, mem_begun]
    constructor
    · rintro ⟨within, goesOn⟩
      have isSuffix := (take_succ_suffix_iff within).mpr goesOn
      refine ⟨Nat.lt_of_le_of_ne within ?_, isSuffix⟩
      intro isAll
      rw [isAll, List.take_length] at isSuffix
      exact incomplete isSuffix
    · rintro ⟨within, isSuffix⟩
      have within := Nat.lt_of_succ_lt within
      exact ⟨within, (take_succ_suffix_iff within).mp isSuffix⟩

/-- Where the closing text becomes complete, all but its last character was read before. -/
theorem begun_of_completes
    (some_closing : closing ≠ [])
    (completes : closing <:+ gap ++ [character]) :
    ∃ position positions,
      begun closing gap = position :: positions ∧
        position + 1 = closing.length ∧ closing[position]? = some character := by
  obtain ⟨position, isLength⟩ :=
    Nat.exists_eq_succ_of_ne_zero (List.length_pos_of_ne_nil some_closing).ne'
  have within : position < closing.length := by
    omega
  have isAll : closing.take (position + 1) = closing := by
    rw [← Nat.succ_eq_add_one, ← isLength, List.take_length]
  rw [← isAll, take_succ_suffix_iff within] at completes
  have isFirst :
      begun closing gap =
        position ::
          (List.range position).reverse.filter fun shorter => closing.take shorter <:+ gap := by
    rw [begun, isLength, List.range_succ, List.reverse_append, List.reverse_singleton,
      List.singleton_append]
    exact List.filter_cons_of_pos (decide_eq_true completes.2)
  exact ⟨position, _, isFirst, isLength.symm, completes.1⟩

/-- The closing text occurs first where it becomes complete first. -/
theorem isLeast_of_completes
    (nowhere : ¬ closing <:+: gap)
    (completes : closing <:+ gap ++ [character])
    (unread : List Char) :
    IsLeast {place | closing <+: (gap ++ character :: unread).drop place}
      (gap.length + 1 - closing.length) := by
  have isAll : gap ++ character :: unread = gap ++ [character] ++ unread := by
    simp
  obtain ⟨before, isSum⟩ := completes
  have lengths := congrArg List.length isSum
  rw [List.length_append, List.length_append, List.length_singleton] at lengths
  constructor
  · have isPlace : gap.length + 1 - closing.length = before.length := by
      omega
    rw [Set.mem_ofPred_eq, isPlace, isAll, ← isSum, List.append_assoc, List.drop_left]
    exact List.prefix_append closing unread
  · intro place found
    by_contra isEarlier
    have inGap : (gap ++ character :: unread).drop place = gap.drop place ++ character :: unread :=
      List.drop_append_of_le_length (by omega)
    rw [Set.mem_ofPred_eq, inGap] at found
    have fits : closing.length ≤ (gap.drop place).length := by
      rw [List.length_drop]
      omega
    have isPrefix :=
      List.prefix_of_prefix_length_le found (List.prefix_append _ _) fits
    exact nowhere (isPrefix.isInfix.trans (List.drop_suffix place gap).isInfix)

end Beginnings

/-! ## Inside the layout -/

namespace Enclosure.LaidOut

variable
  {layout : Enclosure}
  {opening closing : List Char}
  (laidOut : layout.LaidOut network opening closing)

include laidOut

/-- A state of the closing text waits for the next character, or leads to the stop state. -/
theorem closing_cases
    {position : Nat}
    (within : position ≤ closing.length) :
    (∃ character : Char,
        network.HasState (layout.closing position) .basic
          [.atom (layout.closing (position + 1)) character.toNat]) ∨
      position = closing.length ∧
        network.HasState (layout.closing position) .basic [.epsilon layout.ruleStop none] := by
  rcases Nat.lt_or_eq_of_le within with before | rfl
  · exact .inl ⟨_, laidOut.readsClosing (List.getElem?_eq_getElem before)⟩
  · exact .inr ⟨rfl, laidOut.toStop⟩

/-- The states of the closing text are different: as much of it would be left behind equal ones. -/
theorem closing_ne
    {first second : Nat}
    (before : first < second)
    (within : second ≤ closing.length) :
    layout.closing first ≠ layout.closing second := by
  induction within using Nat.decreasingInduction generalizing first with
  | self =>
      have hasFirst := laidOut.readsClosing (List.getElem?_eq_getElem before)
      exact hasFirst.ne_of_edges laidOut.toStop (by simp)
  | of_succ second inside inductionHypothesis =>
      have hasFirst := laidOut.readsClosing (List.getElem?_eq_getElem (before.trans inside))
      have hasSecond := laidOut.readsClosing (List.getElem?_eq_getElem inside)
      intro same
      rw [same] at hasFirst
      have sameEdges := hasFirst.edges_eq.symm.trans hasSecond.edges_eq
      rw [List.cons.injEq, Edge.atom.injEq] at sameEdges
      exact inductionHypothesis (Nat.succ_lt_succ before) sameEdges.1.1

/-- No state of the closing text is the one that waits for any character. -/
theorem closing_ne_wildcard
    {position : Nat}
    (within : position ≤ closing.length) :
    layout.closing position ≠ layout.wildcard := by
  rcases laidOut.closing_cases within with ⟨character, has⟩ | ⟨_, has⟩
  · exact has.ne_of_edges laidOut.wildcard (by simp)
  · exact has.ne_of_edges laidOut.wildcard (by simp)

/-- The first state of the closing text waits for its first character. -/
theorem exists_first (some_closing : closing ≠ []) :
    ∃ character : Char,
      network.HasState (layout.closing 0) .basic
        [.atom (layout.closing (0 + 1)) character.toNat] := by
  rcases laidOut.closing_cases (Nat.zero_le _) with waits | ⟨isEmpty, _⟩
  · exact waits
  · exact absurd (List.eq_nil_of_length_eq_zero isEmpty.symm) some_closing

/-- The states that free edges lead to from the end of a round of the loop are different. -/
theorem nodup_round (some_closing : closing ≠ []) :
    [layout.blockEnd, layout.loopBack, layout.loopEntry, layout.loopEnd, layout.closing 0,
      layout.blockStart, layout.wildcard].Nodup := by
  obtain ⟨character, first⟩ := laidOut.exists_first some_closing
  -- They differ in their kinds, but for the two that wait, which differ in what they wait for.
  refine List.Nodup.of_map
    (fun number => ((network.state number).kind,
      (network.state number).edges.map fun edge => (edge.isEpsilon, edge.label?.isSome))) ?_
  simp [laidOut.blockEnd.kind_eq, laidOut.blockEnd.edges_eq, laidOut.loopBack.kind_eq,
    laidOut.loopBack.edges_eq, laidOut.loopEntry.kind_eq, laidOut.loopEntry.edges_eq,
    laidOut.loopEnd.kind_eq, laidOut.loopEnd.edges_eq, first.kind_eq, first.edges_eq,
    laidOut.blockStart.kind_eq, laidOut.blockStart.edges_eq, laidOut.wildcard.kind_eq,
    laidOut.wildcard.edges_eq, Edge.label?]

variable
  {kept : ThreadSet}
  {visited : Std.HashSet Thread}

/-- At the entry of the loop a thread is kept for the closing text, and then one for the loop. -/
theorem close_loopEntry
    (some_closing : closing ≠ [])
    (avoids :
      Avoids visited
        [layout.loopEntry, layout.loopEnd, layout.closing 0, layout.blockStart, layout.wildcard])
    (depth : Nat) :
    let closed :=
      close network false (depth + 3) (atState true layout.loopEntry) ⟨kept, visited, false⟩
    closed.kept =
        (kept.insert (atState true (layout.closing 0))).insert (atState true layout.wildcard) ∧
      closed.accepted = false := by
  obtain ⟨character, first⟩ := laidOut.exists_first some_closing
  have avoidsEnd := avoids.insert (atState true layout.loopEntry)
  obtain ⟨visitedEnd, toEnd, avoidsBlock⟩ :
      ∃ visitedEnd,
        close network false (depth + 2) (atState true layout.loopEnd)
            ⟨kept, visited.insert (atState true layout.loopEntry), false⟩ =
          ⟨kept.insert (atState true (layout.closing 0)), visitedEnd, false⟩ ∧
        Avoids visitedEnd [layout.blockStart, layout.wildcard] := by
    have avoidsFirst := avoidsEnd.insert (atState true layout.loopEnd)
    refine ⟨_, ?_, avoidsFirst.insert (atState true (layout.closing 0))⟩
    rw [close_free laidOut.loopEnd (by decide) avoidsEnd, moveTo_atState first (.inl rfl)]
    exact close_waiting first rfl avoidsFirst depth
  have avoidsWildcard := avoidsBlock.insert (atState true layout.blockStart)
  have isClosed :
      close network false (depth + 3) (atState true layout.loopEntry) ⟨kept, visited, false⟩ =
        close network false (depth + 2) (atState true layout.blockStart)
          ⟨kept.insert (atState true (layout.closing 0)), visitedEnd, false⟩ := by
    rw [← toEnd, ← moveTo_atState laidOut.loopEnd (.inl rfl) layout.loopEntry,
      ← moveTo_atState laidOut.blockStart (.inl rfl) layout.loopEntry,
      close_inside laidOut.loopEntry (by decide) avoids]
    rfl
  dsimp only
  rw [isClosed, close_free laidOut.blockStart (by decide) avoidsBlock,
    moveTo_atState laidOut.wildcard (.inl rfl),
    close_waiting laidOut.wildcard rfl avoidsWildcard]
  exact ⟨rfl, rfl⟩

/-- A round of the loop ends at its entry. -/
theorem close_blockEnd
    (avoids :
      Avoids visited
        [layout.blockEnd, layout.loopBack, layout.loopEntry, layout.loopEnd, layout.closing 0,
          layout.blockStart, layout.wildcard])
    (depth : Nat) :
    close network false (depth + 2) (atState true layout.blockEnd) ⟨kept, visited, false⟩ =
      close network false depth (atState true layout.loopEntry)
        ⟨kept,
          (visited.insert (atState true layout.blockEnd)).insert (atState true layout.loopBack),
          false⟩ := by
  have avoidsBack := avoids.insert (atState true layout.blockEnd)
  rw [close_free laidOut.blockEnd (by decide) avoids, moveTo_atState laidOut.loopBack (.inl rfl),
    close_free laidOut.loopBack (by decide) avoidsBack,
    moveTo_atState laidOut.loopEntry (.inl rfl)]

/-- The bound on walks is enough for a whole round of the loop. -/
theorem exists_pathBound : ∃ depth, pathBound network = depth + 5 := by
  have some_state : 0 < network.states.size := by
    by_contra no_state
    have isBare :
        network.state layout.wildcard = Network.State.bare layout.wildcard .invalid none :=
      Network.state_of_size_le (by omega)
    have isInvalid := laidOut.wildcard.kind_eq
    rw [isBare] at isInvalid
    cases isInvalid
  have large : 3 ^ 2 ≤ pathBound network :=
    calc
      3 ^ 2 ≤ (network.states.size + 2) ^ 2 := Nat.pow_le_pow_left (by omega) 2
      _ ≤ (network.states.size + 2) ^ (network.states.size + 1) :=
        Nat.pow_le_pow_right (by omega) (by omega)
      _ ≤ pathBound network := Network.pow_le_powerBound _ _
  exact ⟨pathBound network - 5, by omega⟩

/-- Behind a character that does not go on with the closing text a thread is dropped. -/
theorem moveNext_closing_of_ne
    {bound position : Nat}
    {character : Char}
    (within : position < closing.length)
    (differs : closing[position]? ≠ some character) :
    moveNext network bound character.toNat (none, kept) (atState true (layout.closing position)) =
      (none, kept) := by
  have isNext := List.getElem?_eq_getElem within
  refine moveNext_of_not_consumes (laidOut.readsClosing isNext) ?_
  rw [isNext] at differs
  simpa [Edge.consumes, Char.toNat_inj] using differs

/-- Behind a character that goes on with the closing text a thread waits for the next one. -/
theorem moveNext_closing
    {position : Nat}
    {character : Char}
    (isNext : closing[position]? = some character)
    (inside : position + 1 < closing.length)
    (depth : Nat) :
    moveNext network (depth + 1) character.toNat (none, kept)
        (atState true (layout.closing position)) =
      (none, kept.insert (atState true (layout.closing (position + 1)))) := by
  have waits := laidOut.readsClosing (List.getElem?_eq_getElem inside)
  rw [moveNext_of_consumes (laidOut.readsClosing isNext) (by simp [Edge.consumes])]
  dsimp only [Edge.target]
  rw [moveTo_atState waits (.inl rfl),
    close_waiting waits rfl (avoids_empty (List.nodup_singleton _))]
  rfl

/-- Behind the last character of the closing text a thread accepts. -/
theorem moveNext_closing_last
    {position : Nat}
    {character : Char}
    (isNext : closing[position]? = some character)
    (isLast : position + 1 = closing.length)
    (depth : Nat) :
    moveNext network (depth + 2) character.toNat (none, kept)
        (atState true (layout.closing position)) =
      (some 1, kept.insert (atState true layout.ruleStop)) := by
  have toStop := laidOut.toStop
  rw [← isLast] at toStop
  have nodup : [layout.closing (position + 1), layout.ruleStop].Nodup := by
    simpa using toStop.ne_of_kind laidOut.ruleStop (by decide)
  have avoids := avoids_empty nodup
  have avoidsStop :=
    avoids.insert (atState true (layout.closing (position + 1)))
  rw [moveNext_of_consumes (laidOut.readsClosing isNext) (by simp [Edge.consumes])]
  dsimp only [Edge.target]
  rw [moveTo_atState toStop (.inl rfl), close_free toStop (by decide) avoids,
    moveTo_atState laidOut.ruleStop (.inl rfl), close_stopped laidOut.ruleStop rfl avoidsStop]
  rfl

/-- Behind any character of the loop the closing text may begin, or the loop may go on. -/
theorem moveNext_wildcard
    (some_closing : closing ≠ [])
    (character : Char)
    (depth : Nat) :
    moveNext network (depth + 5) character.toNat (none, kept) (atState true layout.wildcard) =
      (none,
        (kept.insert (atState true (layout.closing 0))).insert (atState true layout.wildcard)) := by
  have isCharacter := wildcard_consumes layout.blockEnd character
  have avoids := avoids_empty (laidOut.nodup_round some_closing)
  have avoidsBack := avoids.insert (atState true layout.blockEnd)
  have avoidsEntry := avoidsBack.insert (atState true layout.loopBack)
  obtain ⟨isKept, notAccepted⟩ := laidOut.close_loopEntry some_closing avoidsEntry depth
  rw [moveNext_of_consumes laidOut.wildcard isCharacter]
  dsimp only [Edge.target]
  rw [moveTo_atState laidOut.blockEnd (.inl rfl), laidOut.close_blockEnd avoids, isKept,
    notAccepted]
  rfl

end Enclosure.LaidOut

/-! ## Threads that wait together -/

/-- The threads that wait for the closing text to go on from the given positions. -/
def Enclosure.threadsAt
    (layout : Enclosure)
    (positions : List Nat) :
    List Thread :=
  positions.map fun position => atState true (layout.closing position)

/-- The threads inside the loop behind a gap. -/
def Enclosure.waiting
    (layout : Enclosure)
    (closing gap : List Char) :
    List Thread :=
  layout.threadsAt (begun closing gap) ++ [atState true layout.wildcard]

namespace Enclosure.LaidOut

variable
  {layout : Enclosure}
  {opening closing : List Char}
  (laidOut : layout.LaidOut network opening closing)

include laidOut

/-- Another thread that waits for the closing text to go on comes last. -/
theorem lists_insert_closing
    {kept : ThreadSet}
    {position : Nat}
    {positions : List Nat}
    (lists : kept.Lists (layout.threadsAt positions))
    (nodup : (positions ++ [position]).Nodup)
    (within : ∀ other ∈ positions ++ [position], other ≤ closing.length) :
    (kept.insert (atState true (layout.closing position))).Lists
      (layout.threadsAt (positions ++ [position])) := by
  have isNew : atState true (layout.closing position) ∉ layout.threadsAt positions := by
    intro member
    obtain ⟨other, isOther, same⟩ := List.mem_map.mp member
    have same := atState_injective true same
    have isOld : other ≠ position :=
      (List.nodup_append.mp nodup).2.2 other isOther position (List.mem_singleton_self position)
    rcases Nat.lt_or_gt_of_ne isOld with before | behind
    · exact laidOut.closing_ne before (within position (by simp)) same
    · exact laidOut.closing_ne behind (within other (by simp [isOther])) same.symm
  simpa [threadsAt] using lists.insert isNew

/-- The thread that waits for any character comes last. -/
theorem lists_insert_wildcard
    {kept : ThreadSet}
    {positions : List Nat}
    (lists : kept.Lists (layout.threadsAt positions))
    (within : ∀ position ∈ positions, position ≤ closing.length) :
    (kept.insert (atState true layout.wildcard)).Lists
      (layout.threadsAt positions ++ [atState true layout.wildcard]) := by
  refine lists.insert fun member => ?_
  obtain ⟨position, isPosition, same⟩ := List.mem_map.mp member
  exact laidOut.closing_ne_wildcard (within position isPosition) (atState_injective true same)

/-- Unless a thread accepts, exactly those whose character was read advance, in their order. -/
theorem foldl_moveNext_threadsAt
    {character : Char}
    (depth : Nat)
    {positions : List Nat}
    (inside : ∀ position ∈ positions, position < closing.length)
    {kept : ThreadSet}
    {taken : List Nat}
    (lists : kept.Lists (layout.threadsAt taken))
    (nodup : (taken ++ advanced closing character positions).Nodup)
    (within :
      ∀ position ∈ taken ++ advanced closing character positions, position < closing.length) :
    ∃ kept',
      (layout.threadsAt positions).foldl
          (moveNext network (depth + 1) character.toNat) (none, kept) = (none, kept') ∧
        kept'.Lists (layout.threadsAt (taken ++ advanced closing character positions)) := by
  -- What is kept so far stands for `taken`; all positions stay different, so each one comes last.
  induction positions generalizing kept taken with
  | nil => exact ⟨kept, rfl, by simpa [advanced] using lists⟩
  | cons position positions inductionHypothesis =>
      have insideRest := fun other member => inside other (List.mem_cons_of_mem position member)
      rw [threadsAt, List.map_cons, List.foldl_cons]
      by_cases goesOn : closing[position]? = some character
      · have isAdvanced :
            taken ++ advanced closing character (position :: positions) =
              (taken ++ [position + 1]) ++ advanced closing character positions := by
          simp [advanced, goesOn]
        rw [isAdvanced] at nodup within ⊢
        rw [laidOut.moveNext_closing goesOn (within (position + 1) (by simp))]
        refine inductionHypothesis insideRest ?_ nodup within
        exact laidOut.lists_insert_closing lists (List.nodup_append.mp nodup).1
          fun other member => (within other (List.mem_append_left _ member)).le
      · have isSame :
            advanced closing character (position :: positions) =
              advanced closing character positions := by
          simp [advanced, goesOn]
        rw [isSame] at nodup within ⊢
        rw [laidOut.moveNext_closing_of_ne (inside position List.mem_cons_self) goesOn]
        exact inductionHypothesis insideRest lists nodup within

/-- Behind a character that does not complete the closing text, its beginnings have advanced. -/
theorem lists_moveThreads
    (some_closing : closing ≠ [])
    {gap : List Char}
    {character : Char}
    (incomplete : ¬ closing <:+ gap ++ [character])
    {set : ThreadSet}
    (lists : set.Lists (layout.waiting closing gap)) :
    (moveThreads network (pathBound network) character.toNat set).Lists
      (layout.waiting closing (gap ++ [character])) := by
  obtain ⟨depth, isBound⟩ := laidOut.exists_pathBound
  have isAdvanced := advanced_begun some_closing incomplete
  have nodup : (advanced closing character (begun closing gap) ++ [0]).Nodup := by
    rw [isAdvanced]
    exact pairwise_begun.imp fun after => after.ne'
  have within :
      ∀ position ∈ advanced closing character (begun closing gap) ++ [0],
        position < closing.length := by
    rw [isAdvanced]
    exact fun position member => (mem_begun.mp member).1
  have nothing : ThreadSet.empty.Lists (layout.threadsAt []) := .empty
  obtain ⟨kept, isMoved, listsLonger⟩ :=
    laidOut.foldl_moveNext_threadsAt (depth + 4) (fun position member => (mem_begun.mp member).1)
      nothing (List.nodup_append.mp nodup).1
      fun position member => within position (List.mem_append_left _ member)
  have atMost := fun position member => (within position member).le
  have listsBegun := laidOut.lists_insert_closing listsLonger nodup atMost
  rw [moveThreads_eq lists, isBound, waiting, List.foldl_append, isMoved, List.foldl_cons,
    List.foldl_nil, laidOut.moveNext_wildcard some_closing, waiting, ← isAdvanced]
  exact laidOut.lists_insert_wildcard listsBegun atMost

/-- Behind the character that completes the closing text, only the token is left. -/
theorem lists_moveThreads_of_completes
    (some_closing : closing ≠ [])
    {gap : List Char}
    {character : Char}
    (completes : closing <:+ gap ++ [character])
    {set : ThreadSet}
    (lists : set.Lists (layout.waiting closing gap)) :
    (moveThreads network (pathBound network) character.toNat set).Lists
      [atState true layout.ruleStop] := by
  obtain ⟨depth, isBound⟩ := laidOut.exists_pathBound
  obtain ⟨position, positions, isBegun, isLast, isNext⟩ := begun_of_completes some_closing completes
  have isWaiting :
      layout.waiting closing gap =
        atState true (layout.closing position) ::
          (positions.map layout.closing ++ [layout.wildcard]).map (atState true) := by
    simp [waiting, threadsAt, isBegun]
  -- The thread that completes the closing text comes first, and it drops all that follow.
  rw [moveThreads_eq lists, isBound, isWaiting, List.foldl_cons,
    laidOut.moveNext_closing_last isNext isLast, foldl_moveNext_of_accepted]
  exact ThreadSet.Lists.empty.insert List.not_mem_nil

end Enclosure.LaidOut

/-! ## The whole token -/

namespace Enclosure.LaidOut

variable
  {layout : Enclosure}
  {opening closing : List Char}
  (laidOut : layout.LaidOut network opening closing)
  {set : ThreadSet}

include laidOut

theorem waits_waiting (gap : List Char) :
    ∀ thread ∈ layout.waiting closing gap, Waits network thread := by
  intro thread member
  rcases List.mem_append.mp member with isClosing | isWildcard
  · obtain ⟨position, isBegun, rfl⟩ := List.mem_map.mp isClosing
    exact waits_atom (laidOut.readsClosing (List.getElem?_eq_getElem (mem_begun.mp isBegun).1))
  · cases List.mem_singleton.mp isWildcard
    exact ⟨_, laidOut.wildcard, rfl⟩

/-- A token that is finished stays, since nothing goes on behind it. -/
theorem longestMatch_stopped
    (lists : set.Lists [atState true layout.ruleStop])
    (bound length : Nat)
    (accepted : Option Accepted)
    (unread : List Char) :
    longestMatch network bound length set accepted unread = (accepted, length) := by
  have nothing : ∀ symbol, moveThreads network bound symbol set = ThreadSet.empty := by
    intro symbol
    refine moveThreads_of_none ?_
    rw [lists.toList_eq]
    intro thread member edge present
    cases List.mem_singleton.mp member
    rw [atState, laidOut.ruleStop.edges_eq] at present
    cases present
  cases unread with
  | nil =>
      rw [longestMatch, nothing]
      rfl
  | cons character unread =>
      rw [longestMatch, nothing]
      rfl

theorem acceptedIn?_stopped
    (lists : set.Lists [atState true layout.ruleStop])
    (length : Nat) :
    acceptedIn? network set length =
      some ⟨length, (network.state layout.ruleStop).rule, []⟩ := by
  rw [acceptedIn?, ← Array.find?_toList, lists.toList_eq]
  simp [atState, laidOut.ruleStop.kind_eq]

/-- Inside the loop the first closing text is found, and where there is none nothing is matched. -/
theorem longestMatch_waiting
    (some_closing : closing ≠ [])
    (passed : Nat)
    {gap : List Char}
    (lists : set.Lists (layout.waiting closing gap))
    (nowhere : ¬ closing <:+: gap)
    (unread : List Char) :
    let result :=
      longestMatch network (pathBound network) (passed + gap.length) set none unread
    (∀ place,
        IsLeast {place | closing <+: (gap ++ unread).drop place} place →
          result.1 =
            some ⟨passed + place + closing.length, (network.state layout.ruleStop).rule, []⟩) ∧
      (¬ closing <:+: gap ++ unread → result = (none, passed + (gap ++ unread).length)) := by
  -- What was read goes over into the gap, which holds no closing text as long as nothing matched.
  induction unread generalizing gap set with
  | nil =>
      rw [List.append_nil, longestMatch,
        moveThreads_of_waits lists (laidOut.waits_waiting gap)]
      refine ⟨?_, fun _ => rfl⟩
      intro place isLeast
      exact absurd (isLeast.1.isInfix.trans (List.drop_suffix place gap).isInfix) nowhere
  | cons character unread inductionHypothesis =>
      by_cases completes : closing <:+ gap ++ [character]
      · have moved := laidOut.lists_moveThreads_of_completes some_closing completes lists
        have isFirst := isLeast_of_completes nowhere completes unread
        rw [longestMatch_cons moved (List.cons_ne_nil _ _), laidOut.acceptedIn?_stopped moved,
          laidOut.longestMatch_stopped moved]
        constructor
        · intro place isLeast
          have fits : closing.length ≤ gap.length + 1 := by
            simpa using completes.length_le
          have isEnd : passed + gap.length + 1 = passed + place + closing.length := by
            have isPlace := isLeast.unique isFirst
            omega
          rw [isEnd]
          rfl
        · intro nowhereAtAll
          exact absurd (isFirst.1.isInfix.trans (List.drop_suffix _ _).isInfix) nowhereAtAll
      · have moved := laidOut.lists_moveThreads some_closing completes lists
        have nowhereNext : ¬ closing <:+: gap ++ [character] := by
          rw [List.infix_concat_iff, not_or]
          exact ⟨completes, nowhere⟩
        have later := inductionHypothesis moved nowhereNext
        rw [List.append_assoc, List.singleton_append, List.length_append, List.length_singleton,
          ← Nat.add_assoc] at later
        have isNone :=
          acceptedIn?_of_waits moved (laidOut.waits_waiting _) (passed + gap.length + 1)
        rw [longestMatch_cons moved (by simp [waiting]), isNone]
        exact later

/-- Whoever comes to the entry of the loop went through a decision that prefers to leave. -/
theorem moveTo_loopEntry
    (passed : Bool)
    (state : Nat) :
    (atState passed state).moveTo network layout.loopEntry = atState true layout.loopEntry := by
  simp [Thread.moveTo, atState, laidOut.loopEntry.kind_eq, laidOut.prefersToLeave,
    StateKind.isDecision]

/-- Behind the opening text the loop begins. -/
theorem close_toLoop
    (some_closing : closing ≠ [])
    (kept : ThreadSet)
    (state depth : Nat) :
    let closed :=
      close network false (depth + 5)
        ((atState false state).moveTo network (layout.opening opening.length)) ⟨kept, ∅, false⟩
    closed.kept =
        (kept.insert (atState true (layout.closing 0))).insert (atState true layout.wildcard) ∧
      closed.accepted = false := by
  have nodup := ((laidOut.nodup_round some_closing).of_cons).of_cons
  rcases laidOut.toLoop with isEntry | leads
  · rw [isEntry, laidOut.moveTo_loopEntry]
    exact laidOut.close_loopEntry some_closing (avoids_empty nodup) (depth + 2)
  · obtain ⟨character, first⟩ := laidOut.exists_first some_closing
    have isOther :
        layout.opening opening.length ∉
          [layout.loopEntry, layout.loopEnd, layout.closing 0, layout.blockStart,
            layout.wildcard] := by
      have notEntry := leads.ne_of_kind laidOut.loopEntry (by decide)
      have notEnd := leads.ne_of_kind laidOut.loopEnd (by decide)
      have notFirst := leads.ne_of_edges first (by simp)
      have notBlock := leads.ne_of_kind laidOut.blockStart (by decide)
      have notWildcard := leads.ne_of_edges laidOut.wildcard (by simp)
      simp [notEntry, notEnd, notFirst, notBlock, notWildcard]
    have avoids := avoids_empty (List.nodup_cons.mpr ⟨isOther, nodup⟩)
    have avoidsEntry :=
      avoids.insert (atState false (layout.opening opening.length))
    rw [moveTo_atState leads (.inr rfl), close_free leads (by decide) avoids,
      laidOut.moveTo_loopEntry]
    exact laidOut.close_loopEntry some_closing avoidsEntry (depth + 1)

end Enclosure.LaidOut

/-- The threads behind so many characters of the opening text. -/
def Enclosure.entering
    (layout : Enclosure)
    (opening closing : List Char)
    (position : Nat) :
    List Thread :=
  if position < opening.length then
    [atState false (layout.opening position)]
  else
    layout.waiting closing []

namespace Enclosure.LaidOut

variable
  {layout : Enclosure}
  {opening closing : List Char}
  (laidOut : layout.LaidOut network opening closing)
  {set : ThreadSet}

include laidOut

theorem waits_entering (position : Nat) :
    ∀ thread ∈ layout.entering opening closing position, Waits network thread := by
  intro thread member
  rw [entering] at member
  split at member
  · rename_i inside
    cases List.mem_singleton.mp member
    exact waits_atom (laidOut.readsOpening (List.getElem?_eq_getElem inside))
  · exact laidOut.waits_waiting [] thread member

/-- The mode starts in front of the opening text. -/
theorem lists_startThreads (some_opening : opening ≠ []) :
    (startThreads network (pathBound network) layout.tokenStart).Lists
      (layout.entering opening closing 0) := by
  obtain ⟨depth, isBound⟩ := laidOut.exists_pathBound
  have inside := List.length_pos_of_ne_nil some_opening
  have first := laidOut.readsOpening (List.getElem?_eq_getElem inside)
  have nodup : [layout.ruleStart, layout.opening 0].Nodup := by
    simpa using laidOut.ruleStart.ne_of_kind first (by decide)
  have avoids := avoids_empty nodup
  have avoidsFirst := avoids.insert (atState false layout.ruleStart)
  have isClosed :
      startThreads network (pathBound network) layout.tokenStart =
        (close network false (depth + 5) (atState false layout.ruleStart)
          ⟨ThreadSet.empty, ∅, false⟩).kept := by
    rw [startThreads, laidOut.tokenStart.edges_eq]
    dsimp only [List.zipIdx_cons, List.zipIdx_nil, List.foldl_cons, List.foldl_nil, Edge.target]
    rw [closeDepth_of_outermost _ rfl, isBound]
    rfl
  rw [isClosed, close_free laidOut.ruleStart (by decide) avoids, moveTo_atState first (.inr rfl),
    close_waiting first rfl avoidsFirst, entering, if_pos inside]
  exact ThreadSet.Lists.empty.insert List.not_mem_nil

/-- A character of the opening text leads behind it. -/
theorem lists_moveThreads_entering
    (some_closing : closing ≠ [])
    {position : Nat}
    {character : Char}
    (isNext : opening[position]? = some character)
    (lists : set.Lists (layout.entering opening closing position)) :
    (moveThreads network (pathBound network) character.toNat set).Lists
      (layout.entering opening closing (position + 1)) := by
  obtain ⟨depth, isBound⟩ := laidOut.exists_pathBound
  obtain ⟨inside, _⟩ := List.getElem?_eq_some_iff.mp isNext
  rw [entering, if_pos inside] at lists
  rw [moveThreads_eq lists, isBound, List.foldl_cons, List.foldl_nil,
    moveNext_of_consumes (laidOut.readsOpening isNext) (by simp [Edge.consumes])]
  dsimp only [Edge.target]
  rw [entering]
  split
  · rename_i insideNext
    have waits := laidOut.readsOpening (List.getElem?_eq_getElem insideNext)
    rw [moveTo_atState waits (.inr rfl),
      close_waiting waits rfl (avoids_empty (List.nodup_singleton _))]
    exact ThreadSet.Lists.empty.insert List.not_mem_nil
  · rename_i notInside
    have isEnd : position + 1 = opening.length := by
      omega
    have nothing : ThreadSet.empty.Lists (layout.threadsAt []) := .empty
    have listsFirst :
        (ThreadSet.empty.insert (atState true (layout.closing 0))).Lists
          (layout.threadsAt [0]) :=
      laidOut.lists_insert_closing nothing (by simp) (by simp)
    rw [isEnd, (laidOut.close_toLoop some_closing ThreadSet.empty _ depth).1, waiting,
      begun_nil some_closing]
    exact laidOut.lists_insert_wildcard listsFirst (by simp)

/-- Over the opening text threads come into the loop. -/
theorem longestMatch_entering
    (some_closing : closing ≠ [])
    {before remaining : List Char}
    (isOpening : before ++ remaining = opening)
    (lists : set.Lists (layout.entering opening closing before.length))
    (unread : List Char) :
    ∃ behind : ThreadSet,
      behind.Lists (layout.waiting closing []) ∧
        longestMatch network (pathBound network) before.length set none (remaining ++ unread) =
          longestMatch network (pathBound network) opening.length behind none unread := by
  induction remaining generalizing before set with
  | nil =>
      rw [List.append_nil] at isOpening
      rw [isOpening, entering, if_neg (Nat.lt_irrefl _)] at lists
      exact ⟨set, lists, by rw [isOpening, List.nil_append]⟩
  | cons character remaining inductionHypothesis =>
      have isNext : opening[before.length]? = some character := by
        simp [← isOpening]
      have moved := laidOut.lists_moveThreads_entering some_closing isNext lists
      have isNone :=
        acceptedIn?_of_waits moved (laidOut.waits_entering _) (before.length + 1)
      have isLonger : before ++ [character] ++ remaining = opening := by
        simpa using isOpening
      have some_thread : layout.entering opening closing (before.length + 1) ≠ [] := by
        rw [entering]
        split <;> simp [waiting]
      rw [List.cons_append, longestMatch_cons moved some_thread, isNone]
      have later := inductionHypothesis isLonger (by simpa using moved)
      simpa using later

end Enclosure.LaidOut

/--
Where the opening text stands in the input, a token is matched up to the end of the first closing
text behind it, whatever else the closing text overlaps with. Without a closing text behind it
matching fails, and that only shows at the end of the input.
-/
theorem matchToken_enclosed
    {layout : Enclosure}
    {opening closing : List Char}
    (laidOut : layout.LaidOut network opening closing)
    (some_opening : opening ≠ [])
    (some_closing : closing ≠ [])
    {source : List Char}
    {start : Nat}
    (opens : opening <+: source.drop start) :
    (∀ place,
        IsLeast {place | start + opening.length ≤ place ∧ closing <+: source.drop place} place →
          matchToken network 0 (source.drop start) =
            .accepted
              ⟨place + closing.length - start, (network.state layout.ruleStop).rule, []⟩) ∧
      ((¬ ∃ place, start + opening.length ≤ place ∧ closing <+: source.drop place) →
        matchToken network 0 (source.drop start) = .failed (source.length - start)) := by
  obtain ⟨unread, isUnread⟩ := opens
  have behind : ∀ place, source.drop (start + opening.length + place) = unread.drop place := by
    intro place
    rw [← List.drop_drop, ← List.drop_drop, ← isUnread, List.drop_left]
  have started :
      (startThreads network (pathBound network) layout.tokenStart).Lists
        (layout.entering opening closing 0) :=
    laidOut.lists_startThreads some_opening
  have notAtStart := acceptedIn?_of_waits started (laidOut.waits_entering 0) 0
  obtain ⟨inLoop, lists, isMatched⟩ :=
    laidOut.longestMatch_entering some_closing (List.nil_append opening) started unread
  have nothingRead : ¬ closing <:+: [] := by
    simpa using some_closing
  have result := laidOut.longestMatch_waiting some_closing opening.length lists nothingRead unread
  simp only [List.nil_append, List.length_nil, Nat.add_zero] at result
  have notEmpty : ¬ (opening ++ unread).isEmpty = true := by
    simp [some_opening]
  rw [List.length_nil] at isMatched
  rw [matchToken, laidOut.modeStart, ← isUnread]
  dsimp only
  rw [notAtStart, isMatched]
  generalize longestMatch network (pathBound network) opening.length inLoop none unread =
    found at result ⊢
  obtain ⟨accepted, length⟩ := found
  constructor
  · rintro place ⟨⟨isBehind, closes⟩, isFirst⟩
    obtain ⟨gap, rfl⟩ := Nat.exists_eq_add_of_le isBehind
    have isLeast : IsLeast {place | closing <+: unread.drop place} gap := by
      refine ⟨by rwa [behind] at closes, ?_⟩
      intro other closesOther
      have isLater := isFirst ⟨Nat.le_add_right _ other, by rwa [behind]⟩
      omega
    have isEnd :
        start + opening.length + gap + closing.length - start =
          opening.length + gap + closing.length := by
      omega
    obtain rfl := result.1 gap isLeast
    rw [isEnd]
  · intro nowhere
    have nowhereUnread : ¬ closing <:+: unread := by
      rintro ⟨before, rest, isSum⟩
      refine nowhere ⟨start + opening.length + before.length, Nat.le_add_right _ _, ?_⟩
      rw [behind, ← isSum, List.append_assoc, List.drop_left]
      exact List.prefix_append closing rest
    have lengths := congrArg List.length isUnread
    rw [List.length_append, List.length_drop] at lengths
    cases result.2 nowhereUnread
    rw [← lengths]
    exact if_neg notEmpty

namespace Overlapping

/-- A lexer of `TEXT : '<' .*? 'aab'`. -/
def encoded : List Int :=
  [4, 0, 1, 14, 6, -1, 2, 0, 7, 0, 1, 0, 10, 0, 12, 0, 9, 5, 0, 8, 1, 0, 8, 0, 9, 0, 1, 0, 1, 0,
    1, 0, 1, 0, 1, 4, 0, 1, 1, 1, 1, 0, 0,
    14, 0, 1, 1, 0, 0, 0, 1, 3, 1, 0, 0, 0, 3, 4, 5, 60, 0, 0, 4, 5, 1, 0, 0, 0, 4, 6, 1, 0, 0, 0,
    5, 10, 1, 0, 0, 0, 6, 7, 1, 0, 0, 0, 7, 8, 9, 0, 0, 0, 8, 9, 1, 0, 0, 0, 9, 4, 1, 0, 0, 0,
    10, 11, 5, 97, 0, 0, 11, 12, 5, 97, 0, 0, 12, 13, 5, 98, 0, 0, 13, 2, 1, 0, 0, 0,
    2, 0, 4, 0]

/-- Behind an `a` too many the closing text is still found, and where its end is missing none is. -/
theorem matchToken_overlapping :
    Network.decode encoded = .ok (compiled ['<'] ['a', 'a', 'b']) ∧
      matchToken (compiled ['<'] ['a', 'a', 'b']) 0 ("x<aaab aab".toList.drop 1) =
        .accepted ⟨5, some 0, []⟩ ∧
      matchToken (compiled ['<'] ['a', 'a', 'b']) 0 ("<aaaa".toList.drop 0) = .failed 5 := by
  refine ⟨by decide +kernel, ?_, ?_⟩
  · have isFirst :
        IsLeast
          {place | 1 + ['<'].length ≤ place ∧
            ['a', 'a', 'b'] <+: "x<aaab aab".toList.drop place} 3 := by
      refine ⟨by decide, ?_⟩
      rintro place ⟨isBehind, closes⟩
      by_contra isEarlier
      have isPlace : place = 2 := by
        simp at isBehind
        omega
      rw [isPlace] at closes
      exact absurd closes (by decide)
    exact (matchToken_enclosed laidOut_compiled (by decide) (by decide) (by decide)).1 3 isFirst
  · have nowhere : ¬ ['a', 'a', 'b'] <:+: "<aaaa".toList := by
      decide
    refine (matchToken_enclosed laidOut_compiled (by decide) (by decide) (by decide)).2 ?_
    rintro ⟨place, _, closes⟩
    exact nowhere (closes.isInfix.trans (List.drop_suffix place _).isInfix)

end Overlapping

end Lexer

end GrammarService
