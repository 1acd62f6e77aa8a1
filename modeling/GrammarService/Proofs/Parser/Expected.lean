import GrammarService.Parser.Expected
import GrammarService.Proofs.Network.FreeWalks
import GrammarService.Proofs.Network.Symbols

namespace GrammarService

/-!
# Which tokens can come next

Looking for the tokens that can follow a state is a search through the places that walks without a
token come to. It keeps the rules it is inside of, and does not enter these again. Where rules
return to the calling rule, the rule that is left is the one that was entered last, so in a network
without loops no rule is passed over, and the search comes to every place.
-/

namespace Parser

open Network

variable {network : Network} {start place : Place} {type : Int}

/-- What can come next at a place: a token that an edge consumes, or the end of the rule. -/
def Shows
    (network : Network)
    (place : Place)
    (type : Int) :
    Prop :=
  ((network.state place.state).kind ≠ .ruleStop ∧
      ∃ edge ∈ (network.state place.state).edges,
        edge.consumes type minTokenType network.maxTokenType = true) ∨
    (type = ruleEnd ∧ (network.state place.state).kind = .ruleStop ∧ place.returns = [])

namespace Lookout

/-- A token type was found. -/
def Finds
    (lookout : Lookout)
    (type : Int) :
    Prop :=
  lookout.found.contains type = true

/-- A place was looked at. -/
def Visits
    (lookout : Lookout)
    (place : Place) :
    Prop :=
  lookout.visited.contains (place.state, place.returns) = true

/-- Only what can come next somewhere on a walk from the start was found. -/
structure Truthful
    (network : Network)
    (start : Place)
    (lookout : Lookout) :
    Prop where
  canonical : IntervalSet.IsCanonical lookout.found.intervals
  shown :
    ∀ {type : Int},
      lookout.Finds type →
        ∃ steps place, FreeWalk network steps start place ∧ Shows network place type

/-- Nothing is left to look for at a place. -/
structure Settled
    (network : Network)
    (lookout : Lookout)
    (place : Place) :
    Prop where
  finds : ∀ {type : Int}, Shows network place type → lookout.Finds type
  visits : ∀ {next : Place}, FreeStep network place next → lookout.Visits next

/-- Nothing is left to look for along an edge. -/
structure Covers
    (network : Network)
    (returns : List Nat)
    (lookout : Lookout)
    (edge : Edge) :
    Prop where
  finds :
    ∀ {type : Int},
      edge.consumes type minTokenType network.maxTokenType = true → lookout.Finds type
  visits : edge.isFree = true → lookout.Visits ⟨edge.target, returns⟩
  enters :
    ∀ {target rule follow : Nat} {precedence : Int},
      edge = .call target rule precedence follow → lookout.Visits ⟨target, follow :: returns⟩

/-- The search went on, and settled every place that it newly came to. -/
structure GoesOn
    (network : Network)
    (start : Place)
    (before after : Lookout) :
    Prop where
  truthful : after.Truthful network start
  finds : ∀ {type : Int}, before.Finds type → after.Finds type
  visits : ∀ {place : Place}, before.Visits place → after.Visits place
  settled :
    ∀ {place : Place}, after.Visits place → before.Visits place ∨ Settled network after place

variable {before after last : Lookout} {returns : List Nat} {edge : Edge}

theorem Settled.later
    (settled : Settled network before place)
    (goesOn : GoesOn network start before after) :
    Settled network after place :=
  ⟨fun shows => goesOn.finds (settled.finds shows),
    fun step => goesOn.visits (settled.visits step)⟩

theorem Covers.later
    (covers : Covers network returns before edge)
    (goesOn : GoesOn network start before after) :
    Covers network returns after edge :=
  ⟨fun consumes => goesOn.finds (covers.finds consumes),
    fun free => goesOn.visits (covers.visits free),
    fun call => goesOn.visits (covers.enters call)⟩

/-- A place is settled once all its edges are covered. -/
theorem settled_of_covers
    {number : Nat}
    (inside : (network.state number).kind ≠ .ruleStop)
    (covers : ∀ edge ∈ (network.state number).edges, Covers network returns after edge) :
    Settled network after ⟨number, returns⟩ := by
  refine ⟨?_, ?_⟩
  · rintro type (⟨_, edge, present, consumes⟩ | ⟨_, stopped, _⟩)
    · exact (covers edge present).finds consumes
    · exact absurd stopped inside
  · intro next step
    cases step with
    | edge _ present free => exact (covers _ present).visits free
    | call _ present => exact (covers _ present).enters rfl
    | leave stopped => exact absurd stopped inside

namespace GoesOn

theorem refl
    (truthful : before.Truthful network start) :
    GoesOn network start before before :=
  ⟨truthful, id, id, .inl⟩

theorem trans
    (earlier : GoesOn network start before after)
    (later : GoesOn network start after last) :
    GoesOn network start before last where
  truthful := later.truthful
  finds finds := later.finds (earlier.finds finds)
  visits visits := later.visits (earlier.visits visits)
  settled visits := by
    rcases later.settled visits with visited | settled
    · rcases earlier.settled visited with visited | settled
      · exact .inl visited
      · exact .inr (settled.later later)
    · exact .inr settled

/-- A search that looks along one edge after the other covers all of them. -/
theorem foldl
    {along : Lookout → Edge → Lookout}
    {edges : List Edge}
    (covers :
      ∀ edge ∈ edges, ∀ lookout : Lookout,
        lookout.Truthful network start →
          GoesOn network start lookout (along lookout edge) ∧
            Covers network returns (along lookout edge) edge)
    (truthful : before.Truthful network start) :
    GoesOn network start before (edges.foldl along before) ∧
      ∀ edge ∈ edges, Covers network returns (edges.foldl along before) edge := by
  induction edges generalizing before with
  | nil => exact ⟨.refl truthful, by simp⟩
  | cons head tail inductionHypothesis =>
      obtain ⟨first, headCovered⟩ := covers head List.mem_cons_self before truthful
      obtain ⟨rest, tailCovered⟩ :=
        inductionHypothesis (fun edge member => covers edge (List.mem_cons_of_mem head member))
          first.truthful
      refine ⟨first.trans rest, fun edge member => ?_⟩
      rcases List.mem_cons.mp member with rfl | isLater
      · exact headCovered.later rest
      · exact tailCovered edge isLater

/-- A search that looks along all edges of a place settles it. -/
theorem foldl_edges
    {along : Lookout → Edge → Lookout}
    {number : Nat}
    (inside : (network.state number).kind ≠ .ruleStop)
    (covers :
      ∀ edge ∈ (network.state number).edges, ∀ lookout : Lookout,
        lookout.Truthful network start →
          GoesOn network start lookout (along lookout edge) ∧
            Covers network returns (along lookout edge) edge)
    (truthful : before.Truthful network start) :
    GoesOn network start before ((network.state number).edges.foldl along before) ∧
      Settled network ((network.state number).edges.foldl along before) ⟨number, returns⟩ := by
  obtain ⟨goesOn, covered⟩ := foldl covers truthful
  exact ⟨goesOn, settled_of_covers inside covered⟩

/-- Finding what an edge consumes covers it. -/
theorem add
    (truthful : before.Truthful network start)
    {steps number : Nat}
    (walk : FreeWalk network steps start ⟨number, returns⟩)
    (inside : (network.state number).kind ≠ .ruleStop)
    (present : edge ∈ (network.state number).edges)
    (notFree : edge.isEpsilon = false)
    {found : IntervalSet}
    (canonical : IntervalSet.IsCanonical found.intervals)
    (contains_iff :
      ∀ type,
        found.contains type = true ↔
          before.Finds type ∨ edge.consumes type minTokenType network.maxTokenType = true) :
    GoesOn network start before { before with found := found } ∧
      Covers network returns { before with found := found } edge := by
  refine ⟨⟨⟨canonical, ?_⟩, fun finds => (contains_iff _).mpr (.inl finds), id, .inl⟩, ?_, ?_, ?_⟩
  · intro type finds
    rcases (contains_iff type).mp finds with found | consumes
    · exact truthful.shown found
    · exact ⟨steps, _, walk, .inl ⟨inside, edge, present, consumes⟩⟩
  · exact fun consumes => (contains_iff _).mpr (.inr consumes)
  · intro free
    rw [Edge.isEpsilon_of_isFree free] at notFree
    cases notFree
  · rintro target rule follow precedence rfl
    cases notFree

end GoesOn

/-- Mark a place as looked at. -/
def mark
    (lookout : Lookout)
    (place : Place) :
    Lookout :=
  { lookout with visited := lookout.visited.insert (place.state, place.returns) }

theorem visits_mark
    {other : Place} :
    (before.mark place).Visits other ↔ other = place ∨ before.Visits other := by
  obtain ⟨state, returns⟩ := place
  obtain ⟨otherState, otherReturns⟩ := other
  simp only [Visits, mark, Std.HashSet.contains_insert, Bool.or_eq_true, beq_iff_eq,
    Prod.mk.injEq, Place.mk.injEq]
  exact or_congr_left (and_congr eq_comm eq_comm)

/-- A place that is marked first and settled then is settled like all others. -/
theorem GoesOn.of_mark
    (goesOn : GoesOn network start (before.mark place) after)
    (settled : Settled network after place) :
    GoesOn network start before after ∧ after.Visits place := by
  refine ⟨⟨goesOn.truthful, goesOn.finds, ?_, ?_⟩, goesOn.visits (visits_mark.mpr (.inl rfl))⟩
  · exact fun visits => goesOn.visits (visits_mark.mpr (.inr visits))
  · intro other visits
    rcases goesOn.settled visits with visited | isSettled
    · rcases visits_mark.mp visited with rfl | visited
      · exact .inr settled
      · exact .inl visited
    · exact .inr isSettled

end Lookout

/-- The rules that are not to be entered are among those that were entered and not left. -/
def IsInside
    (network : Network)
    (place : Place)
    (called : List (Option Nat)) :
    Prop :=
  ∃ starts,
    Entered network place starts ∧
      ∀ rule ∈ called, ∃ start ∈ starts, (network.state start).rule = rule

section Search

variable
  (shaped : network.RuleShaped)
  (coherent : network.Coherent)
  (rejoins : network.Rejoins)
  (acyclic : network.Acyclic)

include shaped coherent

/-- A state that some call leads to starts the rule it belongs to. -/
theorem eq_startOf_of_isCalled
    {number : Nat}
    (isCalled : network.IsCalled number) :
    ∃ rule, number = network.startOf rule ∧ (network.state number).rule = some rule := by
  obtain ⟨caller, rule, precedence, follow, present⟩ := isCalled
  have isStart := shaped.callTarget present
  refine ⟨rule, isStart, ?_⟩
  rw [isStart]
  exact shaped.startRule (coherent.call present).1

namespace IsInside

variable
  {number : Nat}
  {returns : List Nat}
  {called : List (Option Nat)}
  (isInside : IsInside network ⟨number, returns⟩ called)

include isInside

section Call

variable
  {target rule follow : Nat}
  {precedence : Int}
  (inside : (network.state number).kind ≠ .ruleStop)
  (present : Edge.call target rule precedence follow ∈ (network.state number).edges)

include acyclic inside present

/-- No rule is passed over. -/
theorem not_mem_of_call : (network.state target).rule ∉ called := by
  obtain ⟨starts, entered, isStarted⟩ := isInside
  intro member
  obtain ⟨start, isStart, sameRule⟩ := isStarted _ member
  obtain ⟨startRule, isStartOf, isStartRule⟩ :=
    eq_startOf_of_isCalled shaped coherent (entered.called start isStart)
  obtain ⟨targetRule, isTargetOf, isTargetRule⟩ :=
    eq_startOf_of_isCalled shaped coherent ⟨number, rule, precedence, follow, present⟩
  have same : startRule = targetRule := by
    rw [isStartRule, isTargetRule] at sameRule
    exact Option.some.inj sameRule
  rw [isStartOf, same, ← isTargetOf] at isStart
  exact entered.not_mem_of_call acyclic inside present isStart

omit shaped coherent in
theorem call :
    IsInside network ⟨target, follow :: returns⟩ ((network.state target).rule :: called) := by
  obtain ⟨starts, entered, isStarted⟩ := isInside
  refine ⟨_, entered.call acyclic inside present, fun rule member => ?_⟩
  rcases List.mem_cons.mp member with rfl | isOuter
  · exact ⟨target, List.mem_cons_self, rfl⟩
  · obtain ⟨start, isStart, isRule⟩ := isStarted rule isOuter
    exact ⟨start, List.mem_cons_of_mem _ isStart, isRule⟩

end Call

/-- A rule that ends is the one that was entered last, and is not kept. -/
theorem leave
    (rejoins : network.Rejoins)
    {follow : Nat}
    {outer : List Nat}
    (isReturns : returns = follow :: outer)
    (stopped : (network.state number).kind = .ruleStop) :
    IsInside network ⟨follow, outer⟩ (called.filter (· != (network.state number).rule)) := by
  obtain ⟨starts, entered, isStarted⟩ := isInside
  subst isReturns
  have frames := entered.frames
  cases starts with
  | nil => simp at frames
  | cons left starts =>
      refine ⟨starts, entered.leave stopped, fun rule member => ?_⟩
      obtain ⟨isCalled, different⟩ := List.mem_filter.mp member
      obtain ⟨start, isStart, isRule⟩ := isStarted rule isCalled
      rcases List.mem_cons.mp isStart with rfl | isOuter
      · obtain ⟨leftRule, _, isLeftRule⟩ :=
          eq_startOf_of_isCalled shaped coherent (entered.called start List.mem_cons_self)
        obtain ⟨steps, walk⟩ := @Entered.walked _ _ _ entered 0 start rfl
        have nested : network.Nested leftRule start [] := isLeftRule
        have ends : (network.state number).rule = some leftRule :=
          nested.freeWalk shaped coherent rejoins walk
        rw [← isRule, isLeftRule, ends] at different
        simp at different
      · exact ⟨start, isOuter, isRule⟩

omit shaped coherent in
theorem edge
    {edge : Edge}
    (inside : (network.state number).kind ≠ .ruleStop)
    (present : edge ∈ (network.state number).edges)
    (free : edge.isFree = true) :
    IsInside network ⟨edge.target, returns⟩ called := by
  obtain ⟨starts, entered, isStarted⟩ := isInside
  exact ⟨starts, entered.edge inside present free, isStarted⟩

end IsInside

omit shaped coherent

/-- The search from a place settles all places that it newly comes to. -/
def Searches
    (network : Network)
    (start : Place)
    (limit : Nat)
    (place : Place) :
    Prop :=
  ∀ (called : List (Option Nat)) (lookout : Lookout),
    IsInside network place called →
      lookout.Truthful network start →
        Lookout.GoesOn network start lookout
            (lookFrom network limit place.state place.returns called lookout) ∧
          (lookFrom network limit place.state place.returns called lookout).Visits place

/-- A place is searched if it is settled where it was not looked at before. -/
theorem searches_of_settles
    {limit number : Nat}
    {returns : List Nat}
    (settles :
      ∀ {called : List (Option Nat)} {lookout : Lookout},
        IsInside network ⟨number, returns⟩ called →
          (lookout.mark ⟨number, returns⟩).Truthful network start →
            ¬ lookout.visited.contains (number, returns) = true →
              Lookout.GoesOn network start (lookout.mark ⟨number, returns⟩)
                  (lookFrom network (limit + 1) number returns called lookout) ∧
                Lookout.Settled network
                  (lookFrom network (limit + 1) number returns called lookout)
                  ⟨number, returns⟩) :
    Searches network start (limit + 1) ⟨number, returns⟩ := by
  intro called lookout isInside truthful
  by_cases visited : lookout.visited.contains (number, returns) = true
  · have isRun : lookFrom network (limit + 1) number returns called lookout = lookout := by
      rw [lookFrom, if_pos visited]
    rw [isRun]
    exact ⟨.refl truthful, visited⟩
  · obtain ⟨goesOn, settled⟩ := settles isInside ⟨truthful.canonical, truthful.shown⟩ visited
    exact goesOn.of_mark settled

section Step

variable
  {limit steps number : Nat}
  {returns : List Nat}
  (walk : FreeWalk network steps start ⟨number, returns⟩)
  (further :
    ∀ {next : Place},
      FreeStep network ⟨number, returns⟩ next → Searches network start limit next)

include walk further

include shaped coherent rejoins in
/-- The end of a rule is searched if what the rule returns to is. -/
theorem searches_of_stopped
    (stopped : (network.state number).kind = .ruleStop) :
    Searches network start (limit + 1) ⟨number, returns⟩ := by
  apply searches_of_settles
  intro called lookout isInside marked visited
  cases returns with
  | nil =>
      have isRun :
          lookFrom network (limit + 1) number [] called lookout =
            { lookout.mark ⟨number, []⟩ with found := lookout.found.add ruleEnd } := by
        rw [lookFrom, if_neg visited]
        exact if_pos stopped
      rw [isRun]
      have contains_iff :
          ∀ type,
            (lookout.found.add ruleEnd).contains type = true ↔
              (lookout.mark ⟨number, []⟩).Finds type ∨ type = ruleEnd :=
        IntervalSet.contains_add_iff marked.canonical ruleEnd
      refine ⟨⟨⟨marked.canonical.addRange _ _, ?_⟩, ?_, id, .inl⟩, ?_, ?_⟩
      · intro type finds
        rcases (contains_iff type).mp finds with found | isEnd
        · exact marked.shown found
        · exact ⟨steps, _, walk, .inr ⟨isEnd, stopped, rfl⟩⟩
      · exact fun finds => (contains_iff _).mpr (.inl finds)
      · rintro type (⟨inside, _⟩ | ⟨isEnd, _, _⟩)
        · exact absurd stopped inside
        · exact (contains_iff type).mpr (.inr isEnd)
      · intro next step
        cases step with
        | edge inside => exact absurd stopped inside
        | call inside => exact absurd stopped inside
  | cons follow outer =>
      have isRun :
          lookFrom network (limit + 1) number (follow :: outer) called lookout =
            lookFrom network limit follow outer
              (called.filter (· != (network.state number).rule))
              (lookout.mark ⟨number, follow :: outer⟩) := by
        rw [lookFrom, if_neg visited]
        exact if_pos stopped
      rw [isRun]
      obtain ⟨goesOn, visits⟩ :=
        further (.leave stopped) _ _ (isInside.leave shaped coherent rejoins rfl stopped) marked
      refine ⟨goesOn, ?_, ?_⟩
      · rintro type (⟨inside, _⟩ | ⟨_, _, isNil⟩)
        · exact absurd stopped inside
        · cases isNil
      · intro next step
        cases step with
        | edge inside => exact absurd stopped inside
        | call inside => exact absurd stopped inside
        | leave => exact visits

include shaped coherent acyclic in
/-- A place inside a rule is searched if what its free edges and calls lead to is. -/
theorem searches_of_inside
    (canonical :
      ∀ {edge : Edge} {symbols : IntervalSet},
        edge ∈ (network.state number).edges → edge.symbols? = some symbols →
          IntervalSet.IsCanonical symbols.intervals)
    (inside : (network.state number).kind ≠ .ruleStop) :
    Searches network start (limit + 1) ⟨number, returns⟩ := by
  apply searches_of_settles
  intro called lookout isInside marked visited
  rw [lookFrom, if_neg visited]
  dsimp only
  rw [if_neg inside]
  refine Lookout.GoesOn.foldl_edges inside ?_ marked
  intro edge present lookout truthful
  have free :
      edge.isFree = true →
        Lookout.GoesOn network start lookout
            (lookFrom network limit edge.target returns called lookout) ∧
          Lookout.Covers network returns
            (lookFrom network limit edge.target returns called lookout) edge := by
    intro isFree
    obtain ⟨goesOn, visits⟩ :=
      further (.edge inside present isFree) _ _ (isInside.edge inside present isFree) truthful
    refine ⟨goesOn, ?_, fun _ => visits, ?_⟩
    · intro type consumes
      rw [Edge.consumes_of_isFree isFree] at consumes
      cases consumes
    · rintro target rule follow precedence rfl
      cases isFree
  have consuming :
      edge.isEpsilon = false →
        ∀ {found : IntervalSet},
          IntervalSet.IsCanonical found.intervals →
            (∀ type,
              found.contains type = true ↔
                lookout.Finds type ∨
                  edge.consumes type minTokenType network.maxTokenType = true) →
            Lookout.GoesOn network start lookout { lookout with found := found } ∧
              Lookout.Covers network returns { lookout with found := found } edge :=
    fun notFree _ => Lookout.GoesOn.add truthful walk inside present notFree
  cases edge with
  | call target rule precedence follow =>
      have notCalled := isInside.not_mem_of_call shaped coherent acyclic inside present
      dsimp only
      rw [if_neg (by simpa using notCalled)]
      obtain ⟨goesOn, visits⟩ :=
        further (.call inside present) _ _ (isInside.call acyclic inside present) truthful
      refine ⟨goesOn, ?_, ?_, ?_⟩
      · intro type consumes
        cases consumes
      · intro isFree
        cases isFree
      · rintro _ _ _ _ ⟨⟩
        exact visits
  | atom target label =>
      refine consuming rfl (truthful.canonical.addRange _ _) fun type => ?_
      rw [IntervalSet.contains_add_iff truthful.canonical, Edge.consumes, beq_iff_eq]
      exact or_congr_right eq_comm
  | range target first last =>
      refine consuming rfl (truthful.canonical.addRange _ _) fun type => ?_
      rw [IntervalSet.contains_addRange_iff truthful.canonical]
      simp only [Edge.consumes, decide_eq_true_eq]
      rfl
  | set target symbols =>
      refine consuming rfl (truthful.canonical.union _) fun type => ?_
      exact truthful.canonical.contains_union_iff (canonical present rfl) type
  | notSet target symbols =>
      refine consuming rfl (truthful.canonical.union _) fun type => ?_
      have isCanonical := canonical present rfl
      rw [IntervalSet.contains_union_iff truthful.canonical, IntervalSet.complement,
        IntervalSet.holds_gapsBetween_iff isCanonical, ← IntervalSet.containsIn_iff isCanonical]
      simp only [Edge.consumes, Bool.and_eq_true, decide_eq_true_eq, Bool.not_eq_true',
        Bool.not_eq_true]
      rfl
  | wildcard target =>
      refine consuming rfl (truthful.canonical.union _) fun type => ?_
      have vocabulary := @IntervalSet.IsCanonical.addRange .empty .nil
      rw [truthful.canonical.contains_union_iff (vocabulary _ _),
        @IntervalSet.contains_addRange_iff .empty .nil, Edge.consumes, decide_eq_true_eq]
      simp [Lookout.Finds]
  | epsilon => exact free rfl
  | predicate => exact free rfl
  | action => exact free rfl
  | precedence => exact free rfl

end Step

include shaped coherent rejoins acyclic in
/-- All places that walks come to are searched, if the limit is not below the rest of a walk. -/
theorem searches_of_bounded
    {bound : Nat}
    (bounded :
      ∀ {steps : Nat} {place : Place}, FreeWalk network steps start place → steps < bound)
    (canonical :
      ∀ {number : Nat} {edge : Edge} {symbols : IntervalSet},
        edge ∈ (network.state number).edges → edge.symbols? = some symbols →
          IntervalSet.IsCanonical symbols.intervals)
    {limit steps : Nat}
    (walk : FreeWalk network steps start place)
    (enough : steps + limit = bound) :
    Searches network start limit place := by
  induction limit generalizing steps place with
  | zero =>
      have short := bounded walk
      omega
  | succ limit inductionHypothesis =>
      have further :
          ∀ {next : Place}, FreeStep network place next → Searches network start limit next :=
        fun step => inductionHypothesis (walk.snoc step) (by omega)
      by_cases stopped : (network.state place.state).kind = .ruleStop
      · exact searches_of_stopped shaped coherent rejoins walk further stopped
      · exact searches_of_inside shaped coherent acyclic walk further canonical stopped

end Search

/-- A search that settles all places that it comes to comes to all places of walks. -/
theorem visits_of_walk
    {lookout : Lookout}
    (settled : ∀ {place : Place}, lookout.Visits place → Lookout.Settled network lookout place)
    {steps : Nat}
    {last : Place}
    (visited : lookout.Visits place)
    (walk : FreeWalk network steps place last) :
    lookout.Visits last := by
  induction walk with
  | stay => exact visited
  | step step _ inductionHypothesis => exact inductionHypothesis ((settled visited).visits step)

/-- The search finds what can come next on walks from a state, and nothing else. -/
theorem contains_nextTokens_iff
    {data : List Int}
    (decoded : Network.decode data = .ok network)
    (shaped : network.RuleShaped)
    (rejoins : network.Rejoins)
    (nonLooping : network.NonLooping)
    (number : Nat)
    (type : Int) :
    (nextTokens network number).contains type = true ↔
      ∃ steps place, FreeWalk network steps ⟨number, []⟩ place ∧ Shows network place type := by
  have coherent := coherent_of_decode decoded
  have acyclic := nonLooping.acyclic shaped
  have bounded :
      ∀ {steps : Nat} {place : Place},
        FreeWalk network steps ⟨number, []⟩ place → steps < network.walkBound := by
    intro steps place walk
    have short := walk.lt_innerBound coherent acyclic (callsAtMost_ruleCount shaped coherent)
    refine lt_of_lt_of_le short (le_trans ?_ (pow_le_powerBound _ _))
    exact Nat.pow_le_pow_right (by omega) (by omega)
  have isInside : IsInside network ⟨number, []⟩ [] :=
    ⟨[], ⟨List.nodup_nil, by simp, rfl, by simp⟩, by simp⟩
  have nothing : (⟨IntervalSet.empty, ∅⟩ : Lookout).Truthful network ⟨number, []⟩ := by
    refine ⟨.nil, ?_⟩
    intro type finds
    cases finds
  obtain ⟨goesOn, visits⟩ :=
    searches_of_bounded shaped coherent rejoins acyclic bounded
      (fun present isSymbols => isCanonical_of_decode decoded present isSymbols) .stay
      (Nat.zero_add _) _ _ isInside nothing
  constructor
  · exact goesOn.truthful.shown
  · rintro ⟨steps, place, walk, shows⟩
    have settled :
        ∀ {place : Place},
          (lookFrom network network.walkBound number [] [] ⟨IntervalSet.empty, ∅⟩).Visits place →
            Lookout.Settled network
              (lookFrom network network.walkBound number [] [] ⟨IntervalSet.empty, ∅⟩) place :=
      fun visits => (goesOn.settled visits).resolve_left (by simp [Lookout.Visits])
    exact (settled (visits_of_walk settled visits walk)).finds shows

/--
A token type is expected at a state where a walk inside the rule comes to an edge that consumes it,
and the end of the rule where one comes to the rule's stop.
-/
theorem nextTokens_exact
    {data : List Int}
    (decoded : Network.decode data = .ok network)
    (shaped : network.RuleShaped)
    (rejoins : network.Rejoins)
    (nonLooping : network.NonLooping)
    (lists : network.ListsVocabulary)
    (number : Nat) :
    (∀ type, type ≠ ruleEnd →
      ((nextTokens network number).contains type = true ↔
        ∃ steps place edge,
          FreeWalk network steps ⟨number, []⟩ place ∧
            (network.state place.state).kind ≠ .ruleStop ∧
              edge ∈ (network.state place.state).edges ∧
                edge.consumes type minTokenType network.maxTokenType = true)) ∧
      ((nextTokens network number).contains ruleEnd = true ↔
        ∃ steps stop,
          FreeWalk network steps ⟨number, []⟩ ⟨stop, []⟩ ∧
            (network.state stop).kind = .ruleStop) := by
  refine ⟨fun type notEnd => ?_, ?_⟩
  · rw [contains_nextTokens_iff decoded shaped rejoins nonLooping]
    constructor
    · rintro ⟨steps, place, walk, ⟨inside, edge, present, consumes⟩ | ⟨isEnd, _⟩⟩
      · exact ⟨steps, place, edge, walk, inside, present, consumes⟩
      · exact absurd isEnd notEnd
    · rintro ⟨steps, place, edge, walk, inside, present, consumes⟩
      exact ⟨steps, place, walk, .inl ⟨inside, edge, present, consumes⟩⟩
  · rw [contains_nextTokens_iff decoded shaped rejoins nonLooping]
    constructor
    · rintro ⟨steps, ⟨stop, returns⟩, walk, ⟨_, edge, present, consumes⟩ | ⟨_, stopped, isNil⟩⟩
      · exact absurd consumes (lists.not_consumes present (by decide) (by decide))
      · cases isNil
        exact ⟨steps, stop, walk, stopped⟩
    · rintro ⟨steps, stop, walk, stopped⟩
      exact ⟨steps, _, walk, .inr ⟨rfl, stopped, rfl⟩⟩

namespace Twice

/-- A parser of `s : b b 'x' | 'y'` and `b : d`, where `b` goes on at the given state behind `d`. -/
def encoded (behind : Nat) : List Int :=
  [4, 1, 3, 14, 2, 0, 7, 0, 2, 1, 7, 1, 2, 2, 7, 2, 2, 3, 7, 3, 3, 0, 13, 1, 0, 1, 0, 1, 0, 1, 0,
    8, 0, 0, 0, 4, 0, 2, 4, 6, 0, 0, 11,
    0, 8, 1, 0, 0, 0, 8, 9, 1, 0, 0, 0, 8, 12, 1, 0, 0, 0, 9, 10, 3, 2, 1, 0, 10, 11, 3, 2, 1, 0,
    11, 13, 5, 1, 0, 0, 12, 13, 5, 2, 0, 0, 13, 1, 1, 0, 0, 0, 2, behind, 3, 6, 3, 0,
    4, 5, 1, 0, 0, 0, 6, 7, 1, 0, 0, 0,
    1, 8]

/-- The network of the encoding. -/
def compiled (behind : Nat) : Network :=
  (Network.decode (encoded behind)).toOption.getD default

/-- How far each state is behind the start. -/
def rank (number : Nat) : Nat :=
  [0, 1, 4, 6, 0, 6, 5, 6, 1, 2, 3, 4, 2, 0].getD number 0

/-- The first alternative calls `b` twice, and `b` goes on behind `d` at the end of a rule. -/
structure CallsTwice
    (network : Network)
    (behind : Nat) :
    Prop where
  choice : (network.state 8).edges = [.epsilon 9 none, .epsilon 12 none]
  first : (network.state 9).edges = [.call 2 1 0 10]
  second : (network.state 10).edges = [.call 2 1 0 11]
  inner : (network.state 2).edges = [.call 6 3 0 behind]
  nothing : (network.state 6).edges = [.epsilon 7 none]
  letter : (network.state 11).edges = [.atom 13 1]
  inside :
    ([2, 6, 8, 9, 10, 11].all fun number =>
      decide ((network.state number).kind ≠ .ruleStop)) = true
  stopped :
    ([7, behind].all fun number => decide ((network.state number).kind = .ruleStop)) = true

namespace CallsTwice

variable {network : Network} {behind : Nat} (calls : CallsTwice network behind)

include calls

theorem kind_ne
    {number : Nat}
    (member : number ∈ [2, 6, 8, 9, 10, 11]) :
    (network.state number).kind ≠ .ruleStop :=
  of_decide_eq_true (List.all_eq_true.mp calls.inside number member)

theorem kind_eq
    {number : Nat}
    (member : number ∈ [7, behind]) :
    (network.state number).kind = .ruleStop :=
  of_decide_eq_true (List.all_eq_true.mp calls.stopped number member)

/-- A call of `b` comes back without a token. -/
theorem walk_through (follow : Nat) : FreeWalk network 4 ⟨2, [follow]⟩ ⟨follow, []⟩ := by
  have enters : FreeStep network ⟨2, [follow]⟩ ⟨6, [behind, follow]⟩ :=
    @FreeStep.call _ 2 6 3 behind 0 _ (calls.kind_ne (by simp)) (by simp [calls.inner])
  have crosses : FreeStep network ⟨6, [behind, follow]⟩ ⟨7, [behind, follow]⟩ :=
    @FreeStep.edge _ 6 _ (.epsilon 7 none) (calls.kind_ne (by simp)) (by simp [calls.nothing]) rfl
  exact .step enters (.step crosses (.step (.leave (calls.kind_eq (by simp)))
    (.step (.leave (calls.kind_eq (by simp))) .stay)))

/-- The state before `'x'` is reached without a token. -/
theorem walk : ∃ steps, FreeWalk network steps ⟨8, []⟩ ⟨11, []⟩ := by
  have chooses : FreeStep network ⟨8, []⟩ ⟨9, []⟩ :=
    @FreeStep.edge _ 8 _ (.epsilon 9 none) (calls.kind_ne (by simp)) (by simp [calls.choice]) rfl
  have enters : FreeStep network ⟨9, []⟩ ⟨2, [10]⟩ :=
    @FreeStep.call _ 9 2 1 10 0 _ (calls.kind_ne (by simp)) (by simp [calls.first])
  have entersAgain : FreeStep network ⟨10, []⟩ ⟨2, [11]⟩ :=
    @FreeStep.call _ 10 2 1 11 0 _ (calls.kind_ne (by simp)) (by simp [calls.second])
  exact ⟨_, .step chooses (.step enters
    ((calls.walk_through 10).append (.step entersAgain (calls.walk_through 11))))⟩

/-- The letter `'x'` can come first. -/
theorem exists_consumes :
    ∃ steps place edge,
      FreeWalk network steps ⟨8, []⟩ place ∧
        (network.state place.state).kind ≠ .ruleStop ∧
          edge ∈ (network.state place.state).edges ∧
            edge.consumes 1 minTokenType network.maxTokenType = true := by
  obtain ⟨steps, walk⟩ := calls.walk
  exact ⟨steps, ⟨11, []⟩, .atom 13 1, walk, calls.kind_ne (by simp), by simp [calls.letter], rfl⟩

end CallsTwice

/-! Behind `d` the rule `b` goes on at its own end, or at that of a rule that was never entered. -/

section Ends

variable {behind : Nat} (isEnd : behind = 3 ∨ behind = 5)

include isEnd

/-- The network passes the checks of its layout. -/
theorem checks :
    (Network.decode (encoded behind)).isOk = true ∧ (compiled behind).checkRules = true ∧
      (List.range (compiled behind).states.size).all ((compiled behind).checkClimbing rank) = true ∧
        (compiled behind).checkVocabulary = true ∧
          ((List.range (compiled behind).states.size).all fun number =>
            decide (((compiled behind).state number).kind = .ruleStop) ||
              !((compiled behind).state number).edges.isEmpty) = true := by
  rcases isEnd with rfl | rfl <;> decide +kernel

theorem callsTwice : CallsTwice (compiled behind) behind := by
  rcases isEnd with rfl | rfl <;> constructor <;> decide +kernel

theorem decoded : Network.decode (encoded behind) = .ok (compiled behind) := by
  have isOk := (checks isEnd).1
  unfold compiled
  cases isRead : Network.decode (encoded behind) with
  | error cause => simp [isRead, Except.isOk, Except.toBool] at isOk
  | ok network => rfl

theorem ruleShaped : (compiled behind).RuleShaped :=
  Network.ruleShaped_of_checkRules (checks isEnd).2.1

theorem nonLooping : (compiled behind).NonLooping := by
  have climbs : (compiled behind).Climbs rank :=
    Network.climbs_of_checkClimbing rank (checks isEnd).2.2.1
  exact climbs.acyclic.nonLooping (ruleShaped isEnd)

theorem listsVocabulary : (compiled behind).ListsVocabulary :=
  Network.listsVocabulary_of_checkVocabulary (checks isEnd).2.2.2.1

/-- Every state that is not the end of a rule leads on. -/
theorem edges_ne_nil
    (number : Nat)
    (inside : ((compiled behind).state number).kind ≠ .ruleStop)
    (valid : ((compiled behind).state number).kind ≠ .invalid) :
    ((compiled behind).state number).edges ≠ [] := by
  rcases Network.forall_state (checks isEnd).2.2.2.2 number with leadsOn | isBare
  · simpa [inside] using leadsOn
  · simp [isBare, State.bare] at valid

end Ends

/-- Both letters are expected where rules return to the calling rule. -/
theorem expects_x :
    (compiled 3).Rejoins ∧ (nextTokens (compiled 3) 8).contains 1 = true := by
  have shaped : (compiled 3).CompilerShaped :=
    Network.compilerShaped_of_checkShape (by decide +kernel)
  have expects :=
    nextTokens_exact (decoded (.inl rfl)) (ruleShaped (.inl rfl)) shaped.rejoins
      (nonLooping (.inl rfl)) (listsVocabulary (.inl rfl)) 8
  exact ⟨shaped.rejoins, (expects.1 1 (by decide)).mpr (callsTwice (.inl rfl)).exists_consumes⟩

set_option maxRecDepth 20000 in
/--
Where `b` goes on at the end of another rule, the search takes that rule for the one that is left.
It keeps `b` among the rules it is inside of, passes over the second call, and misses `'x'`.
-/
theorem misses_x :
    Network.decode (encoded 5) = .ok (compiled 5) ∧ (compiled 5).RuleShaped ∧
      (∀ number,
        ((compiled 5).state number).kind ≠ .ruleStop →
          ((compiled 5).state number).kind ≠ .invalid →
            ((compiled 5).state number).edges ≠ []) ∧
        (compiled 5).NonLooping ∧ (compiled 5).ListsVocabulary ∧
          ((compiled 5).state 8).rule = some 0 ∧
            (∃ steps place edge,
              FreeWalk (compiled 5) steps ⟨8, []⟩ place ∧
                ((compiled 5).state place.state).kind ≠ .ruleStop ∧
                  edge ∈ ((compiled 5).state place.state).edges ∧
                    edge.consumes 1 minTokenType (compiled 5).maxTokenType = true) ∧
              (nextTokens (compiled 5) 8).contains 1 = false := by
  have isEnd : 5 = 3 ∨ 5 = 5 := .inr rfl
  refine ⟨decoded isEnd, ruleShaped isEnd, edges_ne_nil isEnd, nonLooping isEnd,
    listsVocabulary isEnd, ?_, (callsTwice isEnd).exists_consumes, ?_⟩
  · decide +kernel
  · cbv

end Twice

end Parser

end GrammarService
