import GrammarService.Proofs.Lexer.Closing

namespace GrammarService

/-!
# The longest match

Behind every prefix of the input the threads are at all the places where a walk over that prefix
can rest, ordered by the token rules they are in. A token is finished where a walk ends in a rule
stop with nothing to return to, so the last prefix that finishes one is the longest match, and the
first thread that finishes it belongs to the first of the rules that match. Main statement:
`matchToken_isLongest`.
-/

namespace Network

variable {network : Network}

/-- Walks over characters, with free steps between them. -/
inductive Spells (network : Network) : Place → List Char → Place → Prop where
  | stay
      {place : Place} :
      Spells network place [] place
  | free
      {first second last : Place}
      {characters : List Char}
      (step : FreeStep network first second)
      (rest : Spells network second characters last) :
      Spells network first characters last
  | character
      {number : Nat}
      {returns : List Nat}
      {edge : Edge}
      {character : Char}
      {characters : List Char}
      {last : Place}
      (inside : (network.state number).kind ≠ .ruleStop)
      (present : edge ∈ (network.state number).edges)
      (consumes : edge.consumes character.toNat 0 maxCharacter = true)
      (rest : Spells network ⟨edge.target, returns⟩ characters last) :
      Spells network ⟨number, returns⟩ (character :: characters) last

namespace Spells

variable {first middle last : Place} {characters more : List Char}

theorem append
    (walk : Spells network first characters middle)
    (later : Spells network middle more last) :
    Spells network first (characters ++ more) last := by
  induction walk with
  | stay => exact later
  | free step _ inductionHypothesis => exact .free step (inductionHypothesis later)
  | character inside present consumes _ inductionHypothesis =>
      exact .character inside present consumes (inductionHypothesis later)

/-- A walk over two texts comes to a place between them. -/
theorem exists_between
    (walk : Spells network first (characters ++ more) last) :
    ∃ middle, Spells network first characters middle ∧ Spells network middle more last := by
  generalize isSum : characters ++ more = all at walk
  induction walk generalizing characters with
  | stay =>
      obtain ⟨rfl, rfl⟩ := List.append_eq_nil_iff.mp isSum
      exact ⟨_, .stay, .stay⟩
  | free step _ inductionHypothesis =>
      obtain ⟨middle, before, behind⟩ := inductionHypothesis isSum
      exact ⟨middle, .free step before, behind⟩
  | character inside present consumes rest inductionHypothesis =>
      cases characters with
      | nil =>
          cases isSum
          exact ⟨_, .stay, .character inside present consumes rest⟩
      | cons head tail =>
          obtain ⟨rfl, isRest⟩ := List.cons.inj isSum
          obtain ⟨middle, before, behind⟩ := inductionHypothesis isRest
          exact ⟨middle, .character inside present consumes before, behind⟩

/-- A walk over no characters consists of free steps. -/
theorem nil_iff :
    Spells network first [] last ↔ ∃ steps, FreeWalk network steps first last := by
  constructor
  · intro walk
    generalize isNil : ([] : List Char) = none at walk
    induction walk with
    | stay => exact ⟨0, .stay⟩
    | free step _ inductionHypothesis =>
        obtain ⟨steps, walk⟩ := inductionHypothesis isNil
        exact ⟨steps + 1, .step step walk⟩
    | character => cases isNil
  · rintro ⟨steps, walk⟩
    induction walk with
    | stay => exact .stay
    | step step _ inductionHypothesis => exact .free step inductionHypothesis

/-- Before its first character a walk comes to a place with an edge that consumes it. -/
theorem cons_iff
    {character : Char} :
    Spells network first (character :: characters) last ↔
      ∃ number returns edge,
        Spells network first [] ⟨number, returns⟩ ∧
          (network.state number).kind ≠ .ruleStop ∧
          edge ∈ (network.state number).edges ∧
          edge.consumes character.toNat 0 maxCharacter = true ∧
          Spells network ⟨edge.target, returns⟩ characters last := by
  constructor
  · intro walk
    generalize isCons : character :: characters = all at walk
    induction walk with
    | stay => cases isCons
    | free step _ inductionHypothesis =>
        obtain ⟨number, returns, edge, before, found⟩ := inductionHypothesis isCons
        exact ⟨number, returns, edge, .free step before, found⟩
    | character inside present consumes rest =>
        cases isCons
        exact ⟨_, _, _, .stay, inside, present, consumes, rest⟩
  · rintro ⟨number, returns, edge, before, inside, present, consumes, rest⟩
    exact before.append (.character inside present consumes rest)

end Spells

/-- A place with an edge that consumes something is one to rest at. -/
theorem canRest_of_consumes
    (coherent : network.Coherent)
    {number : Nat}
    {returns : List Nat}
    {edge : Edge}
    {symbol low high : Int}
    (inside : (network.state number).kind ≠ .ruleStop)
    (present : edge ∈ (network.state number).edges)
    (consumes : edge.consumes symbol low high = true) :
    network.CanRest ⟨number, returns⟩ := by
  rw [CanRest, if_neg inside, coherent.epsilonOnly, Bool.and_eq_false_iff]
  refine .inr (List.all_eq_false.mpr ⟨edge, present, ?_⟩)
  simp [Edge.not_isEpsilon_of_consumes consumes]

/-- A walk that ends where it can rest has rested behind every part of its text. -/
theorem Spells.exists_rest
    (coherent : network.Coherent)
    {first last : Place}
    {characters more : List Char}
    (walk : Spells network first (characters ++ more) last)
    (canRest : network.CanRest last) :
    ∃ middle, Spells network first characters middle ∧ network.CanRest middle := by
  obtain ⟨middle, before, behind⟩ := walk.exists_between
  cases more with
  | nil =>
      refine ⟨last, ?_, canRest⟩
      simpa using before.append behind
  | cons character more =>
      obtain ⟨number, returns, edge, free, inside, present, consumes, _⟩ :=
        Spells.cons_iff.mp behind
      refine ⟨⟨number, returns⟩, ?_, canRest_of_consumes coherent inside present consumes⟩
      simpa using before.append free

/--
A token rule that a mode offers, by the place of its edge in the start state of the mode, matches
a text: a walk over the text comes from there to the stop state of the rule, with nothing left to
return to.
-/
def Offers
    (network : Network)
    (modeStart index : Nat)
    (characters : List Char)
    (rule : Option Nat) :
    Prop :=
  ∃ edge stop,
    (network.state modeStart).edges[index]? = some edge ∧
      Spells network ⟨edge.target, []⟩ characters ⟨stop, []⟩ ∧
      (network.state stop).kind = .ruleStop ∧ (network.state stop).rule = rule

end Network

namespace Lexer

variable {network : Network}

/-! ## Ordered threads -/

/-- Threads at all the places come to where a walk can rest, in the order of the alternatives. -/
structure Occupies
    (network : Network)
    (comesTo : Nat → Place → Prop)
    (set : ThreadSet) :
    Prop where
  keepsKnown : set.KeepsKnown
  sound :
    ∀ thread ∈ set.threads,
      comesTo thread.alternative thread.place ∧ network.CanRest thread.place ∧
        thread.passedNonGreedy = false
  complete :
    ∀ alternative place,
      comesTo alternative place →
        network.CanRest place →
          ∃ thread ∈ set.threads, thread.place = place ∧ thread.alternative = alternative
  sorted :
    set.threads.toList.Pairwise fun earlier later => earlier.alternative ≤ later.alternative

/-- Gathering for ordered alternatives, one after the other, keeps the threads in order. -/
theorem occupies_foldl
    {items : List α}
    {alternative : α → Nat}
    {comesTo : α → Place → Prop}
    (kept : β → ThreadSet)
    {step : β → α → β}
    (gathers :
      ∀ item ∈ items, ∀ before,
        (kept before).KeepsKnown →
          Gathers network (alternative item) (comesTo item) (kept before)
            (kept (step before item)))
    (sorted : items.Pairwise fun earlier later => alternative earlier ≤ alternative later)
    {start : β}
    (nothing : kept start = ThreadSet.empty) :
    Occupies network
      (fun number place => ∃ item ∈ items, alternative item = number ∧ comesTo item place)
      (kept (items.foldl step start)) := by
  induction items using List.reverseRecOn with
  | nil =>
      rw [List.foldl_nil, nothing]
      exact ⟨ThreadSet.keepsKnown_empty, by simp [ThreadSet.empty], by simp,
        by simp [ThreadSet.empty]⟩
  | append_singleton earlier last inductionHypothesis =>
      obtain ⟨sortedEarlier, _, before⟩ := List.pairwise_append.mp sorted
      have occupies :=
        inductionHypothesis (fun item member => gathers item (by simp [member])) sortedEarlier
      have gather := gathers last (by simp) _ occupies.keepsKnown
      rw [List.foldl_concat]
      obtain ⟨added, isSum, fromLast⟩ := gather.keeps
      refine ⟨gather.keepsKnown, ?_, ?_, ?_⟩
      · intro thread member
        rw [← Array.mem_toList_iff, isSum, List.mem_append] at member
        rcases member with isOld | isNew
        · obtain ⟨⟨item, isItem, found⟩, rests⟩ :=
            occupies.sound thread (Array.mem_toList_iff.mp isOld)
          exact ⟨⟨item, by simp [isItem], found⟩, rests⟩
        · obtain ⟨isLast, greedy, canRest, comes⟩ := fromLast thread isNew
          exact ⟨⟨last, by simp, isLast.symm, comes⟩, canRest, greedy⟩
      · rintro number place ⟨item, isItem, rfl, comes⟩ canRest
        rcases List.mem_append.mp isItem with isEarlier | isLast
        · obtain ⟨thread, member, found⟩ :=
            occupies.complete _ place ⟨item, isEarlier, rfl, comes⟩ canRest
          refine ⟨thread, ?_, found⟩
          rw [← Array.mem_toList_iff, isSum]
          exact List.mem_append_left added (Array.mem_toList_iff.mpr member)
        · cases List.mem_singleton.mp isLast
          exact gather.complete place comes canRest
      · rw [isSum]
        refine List.pairwise_append.mpr ⟨occupies.sorted, ?_, ?_⟩
        · refine List.pairwise_of_forall_mem_list ?_
          intro first isFirst second isSecond
          exact Nat.le_of_eq
            ((fromLast first isFirst).1.trans (fromLast second isSecond).1.symm)
        · intro old isOld new isNew
          obtain ⟨⟨item, isItem, isAlternative, _⟩, _⟩ :=
            occupies.sound old (Array.mem_toList_iff.mp isOld)
          rw [← isAlternative, (fromLast new isNew).1]
          exact before item isItem last (by simp)

/-- Only which places are come to matters. -/
theorem Occupies.congr
    {comesTo comesTo' : Nat → Place → Prop}
    {set : ThreadSet}
    (occupies : Occupies network comesTo set)
    (same : ∀ alternative place, comesTo alternative place ↔ comesTo' alternative place) :
    Occupies network comesTo' set := by
  have same : comesTo = comesTo' := by
    funext alternative place
    exact propext (same alternative place)
  exact same ▸ occupies

/-- The places that the walks over a text come to from the edges of a mode's start state. -/
def ComesTo
    (network : Network)
    (modeStart : Nat)
    (characters : List Char)
    (alternative : Nat)
    (place : Place) :
    Prop :=
  ∃ index edge,
    (network.state modeStart).edges[index]? = some edge ∧ index + 1 = alternative ∧
      network.Spells ⟨edge.target, []⟩ characters place

/-- Where no edge consumes a symbol, moving along them changes nothing. -/
theorem moveAlong_of_none
    {bound : Nat}
    {symbol : Int}
    {thread : Thread}
    {acceptedBefore : Bool}
    {kept : ThreadSet}
    {edges : List Edge}
    (none_consumes : ∀ edge ∈ edges, edge.consumes symbol 0 maxCharacter = false) :
    moveAlong network bound symbol thread acceptedBefore kept edges = (false, kept) := by
  induction edges with
  | nil => rfl
  | cons edge rest inductionHypothesis =>
      rw [moveAlong, if_neg (by simp [none_consumes edge List.mem_cons_self])]
      exact inductionHypothesis fun other member =>
        none_consumes other (List.mem_cons_of_mem edge member)

/-- Where no edge of a thread consumes a symbol, no thread is left. -/
theorem moveThreads_of_none
    {bound : Nat}
    {symbol : Int}
    {set : ThreadSet}
    (none_consumes :
      ∀ thread ∈ set.threads.toList,
        ∀ edge ∈ (network.state thread.state).edges,
          edge.consumes symbol 0 maxCharacter = false) :
    moveThreads network bound symbol set = ThreadSet.empty := by
  unfold moveThreads
  rw [← Array.foldl_toList]
  refine foldl_keeps
    (fun moved : Option Nat × ThreadSet => moved.2 = ThreadSet.empty) ?_ rfl
  intro thread member moved nothing
  dsimp only
  split
  · exact nothing
  · rw [moveAlong_of_none (none_consumes thread member)]
    exact nothing

section Greedy

variable
  (munches : network.MunchesGreedily)
  (coherent : network.Coherent)

include munches coherent

/-- A mode starts with threads wherever its rules come to without a character. -/
theorem occupies_startThreads (modeStart : Nat) :
    Occupies network (ComesTo network modeStart [])
      (startThreads network (pathBound network) modeStart) := by
  have occupies :
      Occupies network
        (fun number place =>
          ∃ item ∈ (network.state modeStart).edges.zipIdx,
            item.2 + 1 = number ∧ ∃ steps, network.FreeWalk steps ⟨item.1.target, []⟩ place)
        (startThreads network (pathBound network) modeStart) := by
    refine occupies_foldl id ?_ ?_ rfl
    · rintro ⟨edge, index⟩ _ before keepsKnown
      have greedy : (⟨edge.target, index + 1, [], [], false⟩ : Thread).passedNonGreedy = false :=
        rfl
      exact gathers_close munches coherent greedy keepsKnown false
    · refine List.pairwise_iff_getElem.mpr ?_
      intro earlier later _ _ before
      simp only [List.getElem_zipIdx]
      omega
  refine occupies.congr ?_
  intro alternative place
  constructor
  · rintro ⟨⟨edge, index⟩, member, isIndex, walk⟩
    exact ⟨index, edge, List.mk_mem_zipIdx_iff_getElem?.mp member, isIndex,
      Network.Spells.nil_iff.mpr walk⟩
  · rintro ⟨index, edge, isEdge, isIndex, walk⟩
    exact ⟨(edge, index), List.mk_mem_zipIdx_iff_getElem?.mpr isEdge, isIndex,
      Network.Spells.nil_iff.mp walk⟩

/-- Moving a thread over a character gathers what free steps lead to behind its edges. -/
theorem gathers_moveAlong
    (character : Char)
    {thread : Thread}
    (greedy : thread.passedNonGreedy = false)
    {edges : List Edge}
    (few : (edges.filter fun edge => !edge.isEpsilon).length ≤ 1)
    {kept : ThreadSet}
    (keepsKnown : kept.KeepsKnown)
    (acceptedBefore : Bool) :
    Gathers network thread.alternative
      (fun place =>
        ∃ edge ∈ edges,
          edge.consumes character.toNat 0 maxCharacter = true ∧
            ∃ steps, network.FreeWalk steps ⟨edge.target, thread.returns⟩ place)
      kept
      (moveAlong network (pathBound network) character.toNat thread acceptedBefore kept edges).2 := by
  induction edges with
  | nil =>
      exact ⟨keepsKnown, ⟨[], by simp [moveAlong], by simp⟩, by simp⟩
  | cons edge rest inductionHypothesis =>
      by_cases consumes : edge.consumes character.toNat 0 maxCharacter = true
      · -- No other edge consumes anything, so it does not matter whether one was accepted.
        have rest_free : ∀ other ∈ rest, other.consumes character.toNat 0 maxCharacter = false := by
          intro other member
          by_contra alsoConsumes
          have isOther : other ∈ rest.filter fun edge => !edge.isEpsilon := by
            simp [member, Edge.not_isEpsilon_of_consumes (by simpa using alsoConsumes)]
          have some_other := List.length_pos_of_mem isOther
          rw [List.filter_cons_of_pos (by simp [Edge.not_isEpsilon_of_consumes consumes]),
            List.length_cons] at few
          omega
        have notAtEnd : ((character.toNat : Int) == endOfInput) = false := by
          simp [endOfInput]
        have gathers :=
          gathers_close munches coherent
            ((thread.passedNonGreedy_moveTo munches edge.target).trans greedy) keepsKnown
            acceptedBefore
        have isClosing :
            (moveAlong network (pathBound network) character.toNat thread acceptedBefore kept
                (edge :: rest)).2 =
              (close network false
                (closeDepth (pathBound network) (thread.moveTo network edge.target))
                (thread.moveTo network edge.target) ⟨kept, ∅, acceptedBefore⟩).kept := by
          rw [moveAlong, if_pos consumes, notAtEnd]
          dsimp only
          rw [moveAlong_of_none rest_free]
          split <;> rfl
        rw [isClosing]
        refine ⟨gathers.keepsKnown, ?_, ?_⟩
        · obtain ⟨added, isSum, fromThread⟩ := gathers.keeps
          refine ⟨added, isSum, ?_⟩
          intro other member
          obtain ⟨alternative, greedy', canRest, walk⟩ := fromThread other member
          exact ⟨alternative, greedy', canRest, edge, List.mem_cons_self, consumes, walk⟩
        · rintro place ⟨other, member, alsoConsumes, walk⟩ canRest
          rcases List.mem_cons.mp member with rfl | isRest
          · exact gathers.complete place walk canRest
          · rw [rest_free other isRest] at alsoConsumes
            cases alsoConsumes
      · have fewer : (rest.filter fun edge => !edge.isEpsilon).length ≤ 1 :=
          Nat.le_trans ((List.sublist_cons_self edge rest).filter _).length_le few
        have gathers := inductionHypothesis fewer
        rw [moveAlong, if_neg consumes]
        refine ⟨gathers.keepsKnown, ?_, ?_⟩
        · obtain ⟨added, isSum, fromThread⟩ := gathers.keeps
          refine ⟨added, isSum, ?_⟩
          intro other member
          obtain ⟨alternative, greedy', canRest, found, isRest, walk⟩ := fromThread other member
          exact ⟨alternative, greedy', canRest, found, List.mem_cons_of_mem edge isRest, walk⟩
        · rintro place ⟨other, member, alsoConsumes, walk⟩ canRest
          rcases List.mem_cons.mp member with rfl | isRest
          · exact absurd alsoConsumes consumes
          · exact gathers.complete place ⟨other, isRest, alsoConsumes, walk⟩ canRest

/-- Moving threads over a character keeps threads wherever the walks over it come to. -/
theorem occupies_moveThreads
    {modeStart : Nat}
    {characters : List Char}
    {set : ThreadSet}
    (occupies : Occupies network (ComesTo network modeStart characters) set)
    (character : Char) :
    Occupies network (ComesTo network modeStart (characters ++ [character]))
      (moveThreads network (pathBound network) character.toNat set) := by
  have moved :
      Occupies network
        (fun number place =>
          ∃ thread ∈ set.threads.toList,
            thread.alternative = number ∧
              ∃ edge ∈ (network.state thread.state).edges,
                edge.consumes character.toNat 0 maxCharacter = true ∧
                  ∃ steps, network.FreeWalk steps ⟨edge.target, thread.returns⟩ place)
        (moveThreads network (pathBound network) character.toNat set) := by
    unfold moveThreads
    rw [← Array.foldl_toList]
    refine occupies_foldl Prod.snd ?_ occupies.sorted rfl
    intro thread member before keepsKnown
    have greedy := (occupies.sound thread (Array.mem_toList_iff.mp member)).2.2
    have gathers :=
      gathers_moveAlong munches coherent character greedy
        (munches.oneConsumes thread.state) keepsKnown (before.1 == some thread.alternative)
    simp only [greedy, Bool.and_false, Bool.false_eq_true, if_false]
    exact gathers
  refine moved.congr ?_
  intro alternative place
  constructor
  · rintro ⟨thread, member, rfl, edge, present, consumes, walk⟩
    obtain ⟨⟨index, first, isFirst, isIndex, before⟩, _⟩ :=
      occupies.sound thread (Array.mem_toList_iff.mp member)
    have inside : (network.state thread.state).kind ≠ .ruleStop := by
      intro stopped
      have free := munches.stopEdges stopped present
      rw [Edge.not_isEpsilon_of_consumes consumes] at free
      cases free
    exact ⟨index, first, isFirst, isIndex,
      before.append (.character inside present consumes (Network.Spells.nil_iff.mpr walk))⟩
  · rintro ⟨index, first, isFirst, isIndex, walk⟩
    obtain ⟨middle, before, behind⟩ := walk.exists_between
    obtain ⟨number, returns, edge, free, inside, present, consumes, rest⟩ :=
      Network.Spells.cons_iff.mp behind
    have comes : ComesTo network modeStart characters alternative ⟨number, returns⟩ :=
      ⟨index, first, isFirst, isIndex, by simpa using before.append free⟩
    obtain ⟨thread, member, isPlace, isAlternative⟩ :=
      occupies.complete alternative _ comes
        (Network.canRest_of_consumes coherent inside present consumes)
    cases isPlace
    exact ⟨thread, Array.mem_toList_iff.mpr member, isAlternative, edge, present, consumes,
      Network.Spells.nil_iff.mp rest⟩

omit coherent in
/-- At the end of the input no thread can move. -/
theorem moveThreads_endOfInput
    (bound : Nat)
    (set : ThreadSet) :
    moveThreads network bound endOfInput set = ThreadSet.empty :=
  moveThreads_of_none fun _ _ _ present => munches.notAtEnd present

end Greedy

/-! ## The longest match -/

/-- A rule matches a text, and no rule that the mode offers before it does. -/
structure IsFirst
    (network : Network)
    (modeStart index : Nat)
    (characters : List Char)
    (rule : Option Nat) :
    Prop where
  offers : network.Offers modeStart index characters rule
  first : ∀ earlier < index, ∀ other, ¬ network.Offers modeStart earlier characters other

/-- A match is the longest one of a text's beginnings, and of the first rule that matches it. -/
structure IsLongest
    (network : Network)
    (modeStart : Nat)
    (characters : List Char)
    (best : Option Accepted) :
    Prop where
  found :
    ∀ accepted,
      best = some accepted →
        accepted.length ≤ characters.length ∧
          ∃ index,
            IsFirst network modeStart index (characters.take accepted.length) accepted.rule
  longest :
    ∀ length ≤ characters.length,
      ∀ index rule,
        network.Offers modeStart index (characters.take length) rule →
          ∃ accepted, best = some accepted ∧ length ≤ accepted.length

variable {modeStart : Nat} {characters : List Char} {set : ThreadSet} {best : Option Accepted}

/-- The first thread in a rule stop belongs to the first rule that matches. -/
theorem isFirst_of_acceptedIn?
    (occupies : Occupies network (ComesTo network modeStart characters) set)
    {length : Nat}
    {accepted : Accepted}
    (isAccepted : acceptedIn? network set length = some accepted) :
    accepted.length = length ∧
      ∃ index, IsFirst network modeStart index characters accepted.rule := by
  unfold acceptedIn? at isAccepted
  obtain ⟨thread, isThread, rfl⟩ := Option.map_eq_some_iff.mp isAccepted
  rw [← Array.find?_toList] at isThread
  obtain ⟨stopped, before, behind, isSum, noneBefore⟩ := List.find?_eq_some_iff_append.mp isThread
  have stopped : (network.state thread.state).kind = .ruleStop := by simpa using stopped
  have member : thread ∈ set.threads := by
    rw [← Array.mem_toList_iff, isSum]
    simp
  obtain ⟨⟨index, edge, isEdge, isIndex, walk⟩, canRest, _⟩ := occupies.sound thread member
  have noReturns : thread.returns = [] := by
    simpa [Network.CanRest, Thread.place, stopped] using canRest
  rw [Thread.place, noReturns] at walk
  refine ⟨rfl, index, ⟨edge, thread.state, isEdge, walk, stopped, rfl⟩, ?_⟩
  rintro earlier isEarlier rule ⟨edge', stop, isEdge', walk', stopped', _⟩
  have canRest' : network.CanRest ⟨stop, []⟩ := by simp [Network.CanRest, stopped']
  obtain ⟨other, isOther, isPlace, isAlternative⟩ :=
    occupies.complete (earlier + 1) ⟨stop, []⟩ ⟨earlier, edge', isEdge', rfl, walk'⟩ canRest'
  have otherStopped : (network.state other.state).kind = .ruleStop := by
    rw [← stopped']
    exact congrArg (fun place : Place => (network.state place.state).kind) isPlace
  have sorted := occupies.sorted
  rw [isSum] at sorted
  rw [← Array.mem_toList_iff, isSum, List.mem_append] at isOther
  rcases isOther with isBefore | isBehind
  · have goesOn := noneBefore other isBefore
    simp [otherStopped] at goesOn
  · rcases List.mem_cons.mp isBehind with rfl | isLater
    · omega
    · have inOrder :=
        List.rel_of_pairwise_cons (List.pairwise_append.mp sorted).2.1 isLater
      omega

/-- Where no thread is in a rule stop, no rule matches. -/
theorem not_offers_of_acceptedIn?
    (occupies : Occupies network (ComesTo network modeStart characters) set)
    {length : Nat}
    (isNone : acceptedIn? network set length = none)
    (index : Nat)
    (rule : Option Nat) :
    ¬ network.Offers modeStart index characters rule := by
  rintro ⟨edge, stop, isEdge, walk, stopped, _⟩
  have canRest : network.CanRest ⟨stop, []⟩ := by simp [Network.CanRest, stopped]
  obtain ⟨thread, member, isPlace, _⟩ :=
    occupies.complete (index + 1) ⟨stop, []⟩ ⟨index, edge, isEdge, rfl, walk⟩ canRest
  have isStopped : (network.state thread.state).kind = .ruleStop := by
    rw [← stopped]
    exact congrArg (fun place : Place => (network.state place.state).kind) isPlace
  unfold acceptedIn? at isNone
  rw [Option.map_eq_none_iff, Array.find?_eq_none] at isNone
  exact isNone thread member (by simpa using isStopped)

namespace IsLongest

/-- The longest match of no characters is found among the first threads. -/
theorem start
    (occupies : Occupies network (ComesTo network modeStart []) set) :
    IsLongest network modeStart [] (acceptedIn? network set 0) where
  found := by
    intro accepted isAccepted
    obtain ⟨isLength, index, isFirst⟩ := isFirst_of_acceptedIn? occupies isAccepted
    exact ⟨by simp [isLength], index, by simpa using isFirst⟩
  longest := by
    intro length le index rule offers
    cases isAccepted : acceptedIn? network set 0 with
    | some accepted => exact ⟨accepted, rfl, Nat.le_trans le (Nat.zero_le _)⟩
    | none =>
        rw [List.take_nil] at offers
        exact absurd offers (not_offers_of_acceptedIn? occupies isAccepted index rule)

/-- A match behind one more character is longer than all before it. -/
theorem step
    (isLongest : IsLongest network modeStart characters best)
    {character : Char}
    (occupies : Occupies network (ComesTo network modeStart (characters ++ [character])) set) :
    IsLongest network modeStart (characters ++ [character])
      ((acceptedIn? network set (characters.length + 1)).or best) := by
  have length_eq : (characters ++ [character]).length = characters.length + 1 := by simp
  have takes :
      ∀ {length : Nat},
        length ≤ characters.length →
          (characters ++ [character]).take length = characters.take length :=
    fun le => List.take_append_of_le_length le
  cases isAccepted : acceptedIn? network set (characters.length + 1) with
  | some accepted =>
      obtain ⟨isLength, index, isFirst⟩ := isFirst_of_acceptedIn? occupies isAccepted
      refine ⟨?_, ?_⟩
      · intro found same
        cases same
        refine ⟨by omega, index, ?_⟩
        rw [isLength, ← length_eq, List.take_length]
        exact isFirst
      · intro length le _ _ _
        exact ⟨accepted, rfl, by omega⟩
  | none =>
      rw [Option.none_or]
      refine ⟨?_, ?_⟩
      · intro found same
        obtain ⟨le, index, isFirst⟩ := isLongest.found found same
        exact ⟨by omega, index, by rwa [takes le]⟩
      · intro length le index rule offers
        rcases Nat.lt_or_ge characters.length length with isAll | isEarlier
        · have isAll : length = (characters ++ [character]).length := by omega
          rw [isAll, List.take_length] at offers
          exact absurd offers (not_offers_of_acceptedIn? occupies isAccepted index rule)
        · rw [takes isEarlier] at offers
          exact isLongest.longest length isEarlier index rule offers

/-- When no thread is left, no more characters give a longer match. -/
theorem stop
    (coherent : network.Coherent)
    (isLongest : IsLongest network modeStart characters best)
    {character : Char}
    (occupies : Occupies network (ComesTo network modeStart (characters ++ [character])) set)
    (nothing : set.isEmpty = true)
    (more : List Char) :
    IsLongest network modeStart (characters ++ character :: more) best := by
  have takes :
      ∀ {length : Nat},
        length ≤ characters.length →
          (characters ++ character :: more).take length = characters.take length :=
    fun le => List.take_append_of_le_length le
  refine ⟨?_, ?_⟩
  · intro accepted isAccepted
    obtain ⟨le, index, isFirst⟩ := isLongest.found accepted isAccepted
    refine ⟨by simp only [List.length_append]; omega, index, by rwa [takes le]⟩
  · intro length le index rule offers
    rcases Nat.lt_or_ge characters.length length with isLater | isEarlier
    · obtain ⟨edge, stop, isEdge, walk, stopped, _⟩ := offers
      obtain ⟨count, rfl⟩ := Nat.exists_eq_add_of_lt isLater
      have isSum :
          (characters ++ character :: more).take (characters.length + count + 1) =
            (characters ++ [character]) ++ more.take count := by
        rw [Nat.add_assoc, List.take_length_add_append, List.take_succ_cons, List.append_assoc]
        rfl
      rw [isSum] at walk
      obtain ⟨middle, before, canRest⟩ :=
        walk.exists_rest coherent (by simp [Network.CanRest, stopped])
      obtain ⟨thread, member, _⟩ :=
        occupies.complete (index + 1) middle ⟨index, edge, isEdge, rfl, before⟩ canRest
      rw [ThreadSet.isEmpty, Array.isEmpty_iff] at nothing
      simp [nothing] at member
    · rw [takes isEarlier] at offers
      exact isLongest.longest length isEarlier index rule offers

end IsLongest

/-- Moving on over all unread characters finds the longest match. -/
theorem isLongest_longestMatch
    (munches : network.MunchesGreedily)
    (coherent : network.Coherent)
    (occupies : Occupies network (ComesTo network modeStart characters) set)
    (isLongest : IsLongest network modeStart characters best)
    (unread : List Char) :
    IsLongest network modeStart (characters ++ unread)
      (longestMatch network (pathBound network) characters.length set best unread).1 := by
  induction unread generalizing characters set best with
  | nil =>
      rw [longestMatch, moveThreads_endOfInput munches]
      simpa [acceptedIn?, ThreadSet.empty] using isLongest
  | cons character unread inductionHypothesis =>
      have occupiesNext := occupies_moveThreads munches coherent occupies character
      rw [longestMatch]
      split
      · rename_i nothing
        exact isLongest.stop coherent occupiesNext nothing unread
      · have later := inductionHypothesis occupiesNext (isLongest.step occupiesNext)
        rw [List.length_append, List.length_singleton, List.append_assoc] at later
        exact later

end Lexer

namespace Network

variable {network : Network}

/-- The edges of a network, and the returns from its calls, stay in their rules. -/
def StaysInRules (network : Network) : Prop :=
  ∀ {number : Nat} {edge : Edge},
    (network.state number).kind ≠ .ruleStop →
      edge ∈ (network.state number).edges →
        (network.state edge.next).rule = (network.state number).rule

/-- The state of the outermost invocation at a place. -/
def outermost (place : Place) : Nat :=
  place.returns.getLast?.getD place.state

/-- In the outermost invocation a walk stays in its rule. -/
theorem Spells.rule_outermost
    (staysInRules : network.StaysInRules)
    {first last : Place}
    {characters : List Char}
    (walk : Spells network first characters last) :
    (network.state (outermost last)).rule = (network.state (outermost first)).rule := by
  have moved :
      ∀ {number target : Nat} (returns : List Nat),
        (network.state target).rule = (network.state number).rule →
          (network.state (outermost ⟨target, returns⟩)).rule =
            (network.state (outermost ⟨number, returns⟩)).rule := by
    intro number target returns same
    cases returns with
    | nil => exact same
    | cons follow outer => simp [outermost, List.getLast?_cons]
  induction walk with
  | stay => rfl
  | free step _ inductionHypothesis =>
      refine inductionHypothesis.trans ?_
      cases step with
      | edge inside present free =>
          have same := staysInRules inside present
          rw [Edge.next_of_isFree free] at same
          exact moved _ same
      | @call number target rule follow precedence returns inside present =>
          refine Eq.trans ?_ (moved returns (staysInRules inside present))
          simp [outermost, Edge.next, List.getLast?_cons]
      | leave stopped => simp [outermost, List.getLast?_cons]
  | @character number returns edge _ _ _ inside present consumes _ inductionHypothesis =>
      have same := staysInRules inside present
      have isTarget : edge.next = edge.target := by
        cases edge <;> first | rfl | cases consumes
      rw [isTarget] at same
      exact inductionHypothesis.trans (moved returns same)

end Network

namespace Lexer

variable {network : Network}

end Lexer

/-! ## A check by ranks -/

namespace Network

variable {network : Network}

/-- Whether a state of a lexer network is greedy, and its edges do not compete and climb. -/
def checkMunching
    (network : Network)
    (rank : Nat → Nat)
    (number : Nat) :
    Bool :=
  let state := network.state number
  let stopped := state.kind = .ruleStop
  !state.nonGreedy &&
    (!stopped || state.edges.all Edge.isEpsilon) &&
    decide ((state.edges.filter fun edge => !edge.isEpsilon).length ≤ 1) &&
    (state.edges.all fun
      | .precedence .. => false
      | edge => !edge.consumes endOfInput 0 maxCharacter) &&
    network.checkClimbing rank number

/-- The check can be trusted. -/
theorem munchesGreedily_of_checkMunching
    (rank : Nat → Nat)
    (checked : (List.range network.states.size).all (network.checkMunching rank) = true) :
    network.MunchesGreedily := by
  have inside :
      ∀ number,
        network.checkMunching rank number = true ∨
          network.state number = State.bare number .invalid none := by
    intro number
    rcases Nat.lt_or_ge number network.states.size with inBounds | outside
    · exact .inl (List.all_eq_true.mp checked number (List.mem_range.mpr inBounds))
    · exact .inr (state_of_size_le outside)
  simp only [checkMunching, Bool.and_eq_true, Bool.or_eq_true, Bool.not_eq_true',
    decide_eq_false_iff_not, decide_eq_true_eq, List.all_eq_true] at inside
  have climbs : network.Climbs rank := by
    refine climbs_of_checkClimbing rank ?_
    rw [List.all_eq_true] at checked ⊢
    intro number member
    have here := checked number member
    simp only [checkMunching, Bool.and_eq_true] at here
    exact here.2
  refine {
    greedy := ?_
    stopEdges := ?_
    oneConsumes := ?_
    noPrecedence := ?_
    notAtEnd := ?_
    acyclic := climbs.acyclic }
  · intro number
    rcases inside number with checked | isBare
    · exact checked.1.1.1.1
    · simp [isBare, State.bare]
  · intro number edge stopped member
    rcases inside number with checked | isBare
    · exact (checked.1.1.1.2.resolve_left (by simp [stopped])) edge member
    · simp [isBare, State.bare] at member
  · intro number
    rcases inside number with checked | isBare
    · exact checked.1.1.2
    · simp [isBare, State.bare]
  · intro number target precedence member
    rcases inside number with checked | isBare
    · simpa using checked.1.2 _ member
    · simp [isBare, State.bare] at member
  · intro number edge member
    rcases inside number with checked | isBare
    · have consumesNothing := checked.1.2 edge member
      cases edge <;> first | rfl | simpa using consumesNothing
    · simp [isBare, State.bare] at member

end Network

namespace Lexer

namespace Words

/-- A lexer of `IF : 'if'` and `ID : LETTER [a-z]*`, with `fragment LETTER : [a-z]`. -/
def encoded : List Int :=
  [4, 0, 2, 10, 6, -1, 2, 0, 7, 0, 2, 1, 7, 1, 2, 2, 7, 2, 1, 0, 1, 1, 1, 1, 0, 0,
    3, 1, 1, 3, 2, 5, 0, 1, 0, 0,
    9, 0, 1, 1, 0, 0, 0, 0, 3, 1, 0, 0, 0, 1, 7, 5, 105, 0, 0, 7, 2, 5, 102, 0, 0,
    3, 8, 3, 5, 2, 0, 5, 6, 2, 97, 122, 0, 8, 9, 1, 0, 0, 0, 8, 4, 1, 0, 0, 0,
    9, 8, 2, 97, 122, 0, 1, 0, 0]

/-- The network of the encoding. -/
def network : Network :=
  (Network.decode encoded).toOption.getD default

end Words

end Lexer

end GrammarService
