import GrammarService.Proofs.Prediction.Jobs

namespace GrammarService

/-!
# Rounds of a precedence loop that make no difference

A spot is a state with the stack that is returned along from there: returns on top of a stack of a
store. Strides lead from spot to spot as free edges are followed, in all ways or in all but those
that the shortcut at precedence loops leaves out.

Where precedence loops are laid out as a grammar compiler does it, the shortcut loses nothing. A
loop whose round is left out can be left, and its rule returns to the loop of an outer invocation,
which is lower down the stack. There the same round is followed, unless it is left out for the same
reason; and a round that begins lower down comes to the same states until it is back at the loop.
-/

namespace Network

/-- The only way on from a state leads along free edges to another one. -/
inductive LeadsStraight
    (network : Network)
    (goal : Nat) :
    Nat → Prop where
  | arrived : LeadsStraight network goal goal
  | step
      {number : Nat}
      {edge : Edge}
      (inside : (network.state number).kind ≠ .ruleStop)
      (only : (network.state number).edges = [edge])
      (free : edge.isFree = true)
      (rest : LeadsStraight network goal edge.target) :
      LeadsStraight network goal number

/--
A precedence loop as a grammar compiler lays it out. Its first edge enters the block of operators,
the end of which leads straight back; another edge leads over the end of the loop to the end of
the rule. From inside a round there is no way out but the loop itself.
-/
structure PrecedenceLoop
    (network : Network)
    (loop : Nat)
    (entering : Edge)
    (others : List Edge)
    (blockEnd : Nat)
    (round : Nat → Prop) :
    Prop where
  edges : (network.state loop).edges = entering :: others
  enters : entering.isFree = true
  block : (network.state entering.target).endState = some blockEnd
  ends : (network.state blockEnd).kind = .blockEnd
  loopsBack : network.LeadsStraight loop blockEnd
  leaves :
    ∃ leaving ∈ others,
      leaving.isFree = true ∧
        (network.state leaving.target).kind = .loopEnd ∧
          ∃ exit ∈ (network.state leaving.target).edges,
            exit.isFree = true ∧ (network.state exit.target).kind = .ruleStop
  begins : round entering.target
  inside : ∀ {number : Nat}, round number → (network.state number).kind ≠ .ruleStop
  closed :
    ∀ {number : Nat} {edge : Edge},
      round number →
        number ≠ loop → edge ∈ (network.state number).edges → round edge.next

/-- Precedence loops are laid out as a grammar compiler does it, and no rule ends where it goes on
behind a call. -/
structure LaidOut (network : Network) : Prop where
  loops :
    ∀ {loop : Nat},
      (network.state loop).kind = .starLoopEntry →
        (network.state loop).precedenceDecision = true →
          ∃ entering others blockEnd round,
            network.PrecedenceLoop loop entering others blockEnd round
  follows :
    ∀ {number target rule follow : Nat} {precedence : Int},
      Edge.call target rule precedence follow ∈ (network.state number).edges →
        (network.state follow).kind ≠ .ruleStop

/-- A state goes on behind a call. -/
def IsFollow
    (network : Network)
    (follow : Nat) :
    Prop :=
  ∃ number target rule precedence,
    Edge.call target rule precedence follow ∈ (network.state number).edges

end Network

/-- The stacks of a store return to where rules go on behind calls. -/
def StackStore.ReturnsBehindCalls
    (store : StackStore)
    (network : Network) :
    Prop :=
  ∀ {stack below : StackId} {follow : Nat},
    ⟨some follow, below⟩ ∈ store.entries stack → network.IsFollow follow

namespace Prediction

/-- Whether another round of a precedence loop can make no difference where only the given states
can be returned to. -/
def roundIsRedundantAbove
    (network : Network)
    (state : Nat)
    (returnStates : List Nat) :
    Bool :=
  let loop := network.state state
  decide (loop.kind = .starLoopEntry) && loop.precedenceDecision &&
    match loop.edges.head?.bind fun edge => (network.state edge.target).endState with
    | none => false
    | some blockEnd =>
        returnStates.all fun returnState =>
          (network.state returnState).rule == loop.rule &&
            returnsToLoop network loop blockEnd returnState

/-- A round makes no difference by the states that a stack returns to, if it has to return. -/
theorem roundIsRedundant_eq
    (network : Network)
    (store : StackStore)
    (configuration : Configuration) :
    roundIsRedundant network store configuration =
      (!store.reachesBottom configuration.stack &&
        roundIsRedundantAbove network configuration.state
          ((store.entries configuration.stack).filterMap StackEntry.returnState)) := by
  have ofEmpty : store.reachesBottom StackId.empty = true := rfl
  by_cases isEmpty : configuration.stack = StackId.empty
  · simp [roundIsRedundant, isEmpty, ofEmpty]
  · unfold roundIsRedundant roundIsRedundantAbove
    cases blockEnd? :
        (network.state configuration.state).edges.head?.bind fun edge =>
          (network.state edge.target).endState <;>
      cases store.reachesBottom configuration.stack <;>
      simp [isEmpty, blockEnd?]

/-- A state, with returns on top of a stack. -/
structure Spot where
  state : Nat
  /-- The states that the rules entered since then return to, innermost first. -/
  frames : List Nat
  base : StackId

/-- What strides go over. -/
structure Ground where
  network : Network
  store : StackStore
  fullContext : Bool
  endIsFree : Bool

namespace Ground

variable {ground : Ground} {shortcut : Bool} {spot first second last : Spot}

/-- Returning from a spot may come to the bottom of the stack at once. -/
def AtBottom
    (ground : Ground)
    (spot : Spot) :
    Prop :=
  spot.frames = [] ∧
    (spot.base = StackId.empty ∨ ∃ below, ⟨none, below⟩ ∈ ground.store.entries spot.base)

/-- Free edges are followed from a spot: it is inside a rule, or there need not be anything to
return to and the real rule invocations are not known. -/
def GoesAlong
    (ground : Ground)
    (spot : Spot) :
    Prop :=
  (ground.network.state spot.state).kind ≠ .ruleStop ∨
    ground.fullContext = false ∧ ground.AtBottom spot

/-- A spot is kept: it needs a token, or is the end of the outermost of the real invocations. -/
def Keeps
    (ground : Ground)
    (spot : Spot) :
    Prop :=
  ground.GoesAlong spot ∧ (ground.network.state spot.state).epsilonOnly = false ∨
    ground.fullContext = true ∧
      (ground.network.state spot.state).kind = .ruleStop ∧ ground.AtBottom spot

/-- Whether another round of a precedence loop can make no difference at a spot. -/
def roundIsRedundant
    (ground : Ground)
    (spot : Spot) :
    Bool :=
  match spot.frames with
  | [] =>
      !ground.store.reachesBottom spot.base &&
        roundIsRedundantAbove ground.network spot.state
          ((ground.store.entries spot.base).filterMap StackEntry.returnState)
  | frame :: _ => roundIsRedundantAbove ground.network spot.state [frame]

/-- The edges to follow from a spot, with or without the shortcut at precedence loops. -/
def edgesTaken
    (ground : Ground)
    (shortcut : Bool)
    (spot : Spot) :
    List Edge :=
  if shortcut && ground.roundIsRedundant spot then
    (ground.network.state spot.state).edges.drop 1
  else
    (ground.network.state spot.state).edges

/-- A stride along an edge, into a rule, or out of a rule. -/
inductive Stride
    (ground : Ground)
    (shortcut : Bool) :
    Spot → Spot → Prop where
  | edge
      {state : Nat}
      {frames : List Nat}
      {base : StackId}
      {edge : Edge}
      (goesAlong : ground.GoesAlong ⟨state, frames, base⟩)
      (present : edge ∈ ground.edgesTaken shortcut ⟨state, frames, base⟩)
      (passes : edge.isPassed ground.endIsFree = true) :
      Stride ground shortcut ⟨state, frames, base⟩ ⟨edge.target, frames, base⟩
  | call
      {state target rule follow : Nat}
      {precedence : Int}
      {frames : List Nat}
      {base : StackId}
      (goesAlong : ground.GoesAlong ⟨state, frames, base⟩)
      (present :
        .call target rule precedence follow ∈ ground.edgesTaken shortcut ⟨state, frames, base⟩) :
      Stride ground shortcut ⟨state, frames, base⟩ ⟨target, follow :: frames, base⟩
  | back
      {state frame : Nat}
      {frames : List Nat}
      {base : StackId}
      (stopped : (ground.network.state state).kind = .ruleStop) :
      Stride ground shortcut ⟨state, frame :: frames, base⟩ ⟨frame, frames, base⟩
  | under
      {state follow : Nat}
      {base below : StackId}
      (stopped : (ground.network.state state).kind = .ruleStop)
      (present : ⟨some follow, below⟩ ∈ ground.store.entries base) :
      Stride ground shortcut ⟨state, [], base⟩ ⟨follow, [], below⟩

/-- So many strides without the shortcut. -/
inductive Strides (ground : Ground) : Nat → Spot → Spot → Prop where
  | stay
      {spot : Spot} :
      Strides ground 0 spot spot
  | stride
      {steps : Nat}
      {first second last : Spot}
      (stride : ground.Stride false first second)
      (rest : Strides ground steps second last) :
      Strides ground (steps + 1) first last

/-- Any number of strides. -/
abbrev Reaches
    (ground : Ground)
    (shortcut : Bool) :
    Spot → Spot → Prop :=
  Relation.ReflTransGen (ground.Stride shortcut)

/-- Strides that are counted are strides. -/
theorem exists_strides_iff :
    (∃ steps, ground.Strides steps first last) ↔ ground.Reaches false first last := by
  constructor
  · rintro ⟨steps, strides⟩
    induction strides with
    | stay => exact .refl
    | stride stride _ inductionHypothesis => exact .head stride inductionHypothesis
  · intro reaches
    induction reaches using Relation.ReflTransGen.head_induction_on with
    | refl => exact ⟨0, .stay⟩
    | head stride _ inductionHypothesis =>
        obtain ⟨steps, strides⟩ := inductionHypothesis
        exact ⟨steps + 1, .stride stride strides⟩

/-- Strides stay on stacks of the store. -/
theorem Stride.isIn
    (stride : ground.Stride shortcut first second)
    (wellMade : ground.store.WellMade)
    (isIn : ground.store.IsIn first.base) :
    ground.store.IsIn second.base := by
  cases stride with
  | edge | call | back => exact isIn
  | under _ present => exact wellMade.below_valid isIn present

/-- The shortcut leaves out strides only. -/
theorem Stride.of_shortcut
    (stride : ground.Stride shortcut first second) :
    ground.Stride false first second := by
  have isEdge {spot : Spot} {edge : Edge}
      (present : edge ∈ ground.edgesTaken shortcut spot) :
      edge ∈ ground.edgesTaken false spot := by
    unfold edgesTaken at present ⊢
    split at present
    · exact List.mem_of_mem_drop present
    · exact present
  cases stride with
  | edge goesAlong present passes => exact .edge goesAlong (isEdge present) passes
  | call goesAlong present => exact .call goesAlong (isEdge present)
  | back stopped => exact .back stopped
  | under stopped present => exact .under stopped present

/-- Where no round is left out, the shortcut changes nothing. -/
theorem Stride.with_shortcut
    (stride : ground.Stride false first second)
    (notRedundant : ground.roundIsRedundant first = false) :
    ground.Stride true first second := by
  have same : ground.edgesTaken true first = ground.edgesTaken false first := by
    simp [edgesTaken, notRedundant]
  cases stride with
  | edge goesAlong present passes => exact .edge goesAlong (same ▸ present) passes
  | call goesAlong present => exact .call goesAlong (same ▸ present)
  | back stopped => exact .back stopped
  | under stopped present => exact .under stopped present

end Ground

/-- Where a round is left out, the state is a precedence loop whose block has an end, and each
return leads back to it. -/
theorem of_roundIsRedundantAbove
    {network : Network}
    {state : Nat}
    {returnStates : List Nat}
    (redundant : roundIsRedundantAbove network state returnStates = true) :
    (network.state state).kind = .starLoopEntry ∧
      (network.state state).precedenceDecision = true ∧
        ∃ entering others blockEnd,
          (network.state state).edges = entering :: others ∧
            (network.state entering.target).endState = some blockEnd ∧
              ∀ returnState ∈ returnStates,
                returnsToLoop network (network.state state) blockEnd returnState = true := by
  simp only [roundIsRedundantAbove, Bool.and_eq_true, decide_eq_true_eq] at redundant
  obtain ⟨⟨isLoop, decides⟩, returns⟩ := redundant
  split at returns
  · cases returns
  · rename_i blockEnd isEnd
    obtain ⟨entering, isFirst, ends⟩ := Option.bind_eq_some_iff.mp isEnd
    obtain ⟨others, edges⟩ := List.head?_eq_some_iff.mp isFirst
    refine ⟨isLoop, decides, entering, others, blockEnd, edges, ends, ?_⟩
    intro returnState member
    have leadsBack := List.all_eq_true.mp returns returnState member
    rw [Bool.and_eq_true] at leadsBack
    exact leadsBack.2

/-- A state that is present carries its own number. -/
theorem number_state
    {network : Network}
    {number : Nat}
    (coherent : network.Coherent)
    (present : Network.IsPresent network.states number) :
    (network.state number).number = number := by
  obtain ⟨state, isState, _⟩ := present
  rw [Network.state_eq_of_getElem? isState]
  exact coherent.numbered isState

/-- An epsilon edge that does not lead to the start of a rule is no call, so it is free. -/
theorem isFree_of_kind_ne
    {network : Network}
    {number : Nat}
    {edge : Edge}
    (coherent : network.Coherent)
    (present : edge ∈ (network.state number).edges)
    (isEpsilon : edge.isEpsilon = true)
    (noStart : (network.state edge.target).kind ≠ .ruleStart) :
    edge.isFree = true := by
  rcases Edge.isFree_or_call_of_isEpsilon isEpsilon with isFree | ⟨_, _, _, _, rfl⟩
  · exact isFree
  · exact absurd (coherent.call present).2.1 noStart

/-- A state that leads back to a precedence loop leads straight back to it. -/
theorem leadsStraight_of_returnsToLoop
    {network : Network}
    {loop blockEnd returnState : Nat}
    (coherent : network.Coherent)
    (isLoop : (network.state loop).kind = .starLoopEntry)
    (ends : (network.state blockEnd).kind = .blockEnd)
    (loopsBack : network.LeadsStraight loop blockEnd)
    (inside : (network.state returnState).kind ≠ .ruleStop)
    (returns : returnsToLoop network (network.state loop) blockEnd returnState = true) :
    network.LeadsStraight loop returnState := by
  have loopNumber : (network.state loop).number = loop :=
    number_state coherent (Network.isPresent_of_kind_ne (by simp [isLoop]))
  unfold returnsToLoop at returns
  simp only at returns
  split at returns
  · rename_i only isOnly
    have present : only ∈ (network.state returnState).edges := by simp [isOnly]
    have targetNumber := number_state coherent (coherent.target present)
    simp only [Bool.and_eq_true, Bool.or_eq_true, decide_eq_true_eq, beq_iff_eq, targetNumber,
      loopNumber] at returns
    obtain ⟨isEpsilon, leads⟩ := returns
    have free := isFree_of_kind_ne coherent present isEpsilon
    rcases leads with ((⟨_, isBack⟩ | rfl) | isEnd) | ⟨isEnd, goesBack⟩
    · refine .step inside isOnly (free (by simp [isBack, isLoop])) ?_
      rw [isBack]
      exact .arrived
    · exact loopsBack
    · refine .step inside isOnly (free (by simp [isEnd, ends])) ?_
      rw [isEnd]
      exact loopsBack
    · refine .step inside isOnly (free (by simp [isEnd])) ?_
      split at goesBack
      · rename_i back isBack
        simp only [Bool.and_eq_true, beq_iff_eq] at goesBack
        obtain ⟨backIsEpsilon, returnsHere⟩ := goesBack
        have backPresent : back ∈ (network.state only.target).edges := by simp [isBack]
        have backFree : back.isFree = true :=
          isFree_of_kind_ne coherent backPresent backIsEpsilon
            (by simp [returnsHere, isLoop])
        refine .step (by simp [isEnd]) isBack backFree ?_
        rw [returnsHere]
        exact .arrived
      · cases goesBack
  · cases returns

namespace Ground

variable
  {ground : Ground}
  {state loop blockEnd : Nat}
  {entering : Edge}
  {others : List Edge}
  {round : Nat → Prop}
  {spot first second last : Spot}
  {frames outer inner : List Nat}
  {base lower : StackId}
  {steps : Nat}

/-- A round is left out at precedence loops only. -/
theorem above_of_roundIsRedundant
    (redundant : ground.roundIsRedundant spot = true) :
    ∃ returnStates, roundIsRedundantAbove ground.network spot.state returnStates = true := by
  unfold roundIsRedundant at redundant
  split at redundant
  · rw [Bool.and_eq_true] at redundant
    exact ⟨_, redundant.2⟩
  · exact ⟨_, redundant⟩

/-- A free edge that the shortcut does not leave out is crossed inside a rule. -/
theorem Stride.along
    {edge : Edge}
    (inside : (ground.network.state state).kind ≠ .ruleStop)
    (present : edge ∈ ground.edgesTaken true ⟨state, frames, base⟩)
    (free : edge.isFree = true) :
    ground.Stride true ⟨state, frames, base⟩ ⟨edge.target, frames, base⟩ :=
  .edge (.inl inside) present (by simp [Edge.isPassed, free])

/-- Straight ways are followed with the shortcut too: precedence loops have several edges. -/
theorem reaches_of_leadsStraight
    (laidOut : ground.network.LaidOut)
    (straight : ground.network.LeadsStraight loop state) :
    ground.Reaches true ⟨state, frames, base⟩ ⟨loop, frames, base⟩ := by
  induction straight with
  | arrived => exact .refl
  | @step number edge inside only free _ inductionHypothesis =>
      have notRedundant : ground.roundIsRedundant ⟨number, frames, base⟩ = false := by
        by_contra redundant
        obtain ⟨_, above⟩ := above_of_roundIsRedundant (Bool.eq_true_of_not_eq_false redundant)
        obtain ⟨isLoop, decides, _⟩ := of_roundIsRedundantAbove above
        obtain ⟨_, others, _, _, loops⟩ := laidOut.loops isLoop decides
        obtain ⟨_, isOther, _⟩ := loops.leaves
        have edges := loops.edges
        rw [only, List.cons.injEq] at edges
        rw [← edges.2] at isOther
        cases isOther
      refine .head (.along inside ?_ free) inductionHypothesis
      simp [edgesTaken, notRedundant, only]

/-- A precedence loop can be left, with the shortcut too. -/
theorem reaches_stop
    (loops : ground.network.PrecedenceLoop loop entering others blockEnd round)
    (isLoop : (ground.network.state loop).kind = .starLoopEntry) :
    ∃ stop,
      (ground.network.state stop).kind = .ruleStop ∧
        ground.Reaches true ⟨loop, frames, base⟩ ⟨stop, frames, base⟩ := by
  obtain ⟨leaving, isOther, leavingFree, isLoopEnd, exit, isExit, exitFree, stopped⟩ :=
    loops.leaves
  have leaves : ground.Stride true ⟨loop, frames, base⟩ ⟨leaving.target, frames, base⟩ := by
    refine .along (by simp [isLoop]) ?_ leavingFree
    unfold edgesTaken
    split
    · simpa [loops.edges] using isOther
    · simp [loops.edges, isOther]
  have exits : ground.Stride true ⟨leaving.target, frames, base⟩ ⟨exit.target, frames, base⟩ := by
    refine .along (by simp [isLoopEnd]) ?_ exitFree
    have notRedundant : ground.roundIsRedundant ⟨leaving.target, frames, base⟩ = false := by
      by_contra redundant
      obtain ⟨_, above⟩ := above_of_roundIsRedundant (Bool.eq_true_of_not_eq_false redundant)
      have isAnother := (of_roundIsRedundantAbove above).1
      rw [isLoopEnd] at isAnother
      cases isAnother
    simp [edgesTaken, notRedundant, isExit]
  exact ⟨exit.target, stopped, .head leaves (.single exits)⟩

/-- The stacks at a spot are in the store, and its frames return to where rules go on behind
calls. -/
structure Proper
    (ground : Ground)
    (spot : Spot) :
    Prop where
  isIn : ground.store.IsIn spot.base
  follows : ∀ frame ∈ spot.frames, ground.network.IsFollow frame

theorem Stride.proper
    {shortcut : Bool}
    (stride : ground.Stride shortcut first second)
    (wellMade : ground.store.WellMade)
    (proper : ground.Proper first) :
    ground.Proper second := by
  refine ⟨stride.isIn wellMade proper.isIn, ?_⟩
  cases stride.of_shortcut with
  | edge => exact proper.follows
  | call _ present =>
      exact List.forall_mem_cons.mpr ⟨⟨_, _, _, _, present⟩, proper.follows⟩
  | back => exact (List.forall_mem_cons.mp proper.follows).2
  | under => simp

variable
  (coherent : ground.network.Coherent)
  (laidOut : ground.network.LaidOut)
  (wellMade : ground.store.WellMade)
  (returnsBehindCalls : ground.store.ReturnsBehindCalls ground.network)

include coherent laidOut wellMade returnsBehindCalls

/-- From a loop whose round is left out, the loop of an outer invocation is reached, which is lower
down the stack. -/
theorem exists_outer
    (proper : ground.Proper spot)
    (redundant : ground.roundIsRedundant spot = true) :
    ∃ outer : Spot,
      ground.Reaches true spot outer ∧
        outer.state = spot.state ∧
          outer.frames.length + outer.base < spot.frames.length + spot.base ∧
            ground.Proper outer := by
  obtain ⟨loop, frames, base⟩ := spot
  have leadsBack {returnStates : List Nat} {follow : Nat}
      (above : roundIsRedundantAbove ground.network loop returnStates = true)
      (member : follow ∈ returnStates)
      (isFollow : ground.network.IsFollow follow)
      (frames : List Nat)
      (base : StackId) :
      ground.Reaches true ⟨follow, frames, base⟩ ⟨loop, frames, base⟩ := by
    obtain ⟨isLoop, decides, entering, others, blockEnd, edges, ends, returns⟩ :=
      of_roundIsRedundantAbove above
    obtain ⟨_, _, _, _, loops⟩ := laidOut.loops isLoop decides
    have sameEdges := loops.edges
    rw [edges, List.cons.injEq] at sameEdges
    obtain ⟨rfl, rfl⟩ := sameEdges
    have sameEnd := loops.block
    rw [ends, Option.some.injEq] at sameEnd
    subst sameEnd
    obtain ⟨_, _, _, _, isCall⟩ := isFollow
    exact reaches_of_leadsStraight laidOut
      (leadsStraight_of_returnsToLoop coherent isLoop loops.ends loops.loopsBack
        (laidOut.follows isCall) (returns follow member))
  have stops : ∃ stop,
      (ground.network.state stop).kind = .ruleStop ∧
        ground.Reaches true ⟨loop, frames, base⟩ ⟨stop, frames, base⟩ := by
    obtain ⟨_, above⟩ := above_of_roundIsRedundant redundant
    obtain ⟨isLoop, decides, _⟩ := of_roundIsRedundantAbove above
    obtain ⟨_, _, _, _, loops⟩ := laidOut.loops isLoop decides
    exact reaches_stop loops isLoop
  obtain ⟨stop, stopped, reaches⟩ := stops
  cases frames with
  | cons frame frames =>
      have isFollow := proper.follows frame List.mem_cons_self
      refine ⟨⟨loop, frames, base⟩, ?_, rfl, by simp, proper.isIn, ?_⟩
      · exact (reaches.tail (.back stopped)).trans
          (leadsBack redundant (List.mem_singleton_self frame) isFollow frames base)
      · exact (List.forall_mem_cons.mp proper.follows).2
  | nil =>
      simp only [roundIsRedundant, Bool.and_eq_true, Bool.not_eq_true', StackStore.reachesBottom,
        Bool.or_eq_false_iff, beq_eq_false_iff_ne] at redundant
      obtain ⟨⟨isStack, notBottom⟩, above⟩ := redundant
      have isLast :=
        List.getLast?_eq_some_getLast (wellMade.nonempty isStack proper.isIn)
      rw [isLast] at notBottom
      generalize isEntry :
        (ground.store.entries base).getLast (wellMade.nonempty isStack proper.isIn) = entry
          at isLast notBottom
      obtain ⟨returnState, below⟩ := entry
      have present : ⟨returnState, below⟩ ∈ ground.store.entries base := isEntry ▸ List.getLast_mem _
      cases returnState with
      | none => cases notBottom
      | some follow =>
          have member :
              follow ∈ (ground.store.entries base).filterMap StackEntry.returnState :=
            List.mem_filterMap.mpr ⟨_, present, rfl⟩
          refine ⟨⟨loop, [], below⟩, ?_, rfl, ?_, wellMade.below_valid proper.isIn present, by simp⟩
          · exact (reaches.tail (.under stopped present)).trans
              (leadsBack above member (returnsBehindCalls present) [] below)
          · simpa using wellMade.below present

/-- From every spot a spot of the same state is reached at which no round is left out. -/
theorem exists_outermost
    (proper : ground.Proper spot) :
    ∃ outer : Spot,
      ground.Reaches true spot outer ∧
        outer.state = spot.state ∧
          ground.Proper outer ∧ ground.roundIsRedundant outer = false := by
  -- Each outer invocation is lower down the stack.
  induction height : spot.frames.length + spot.base using Nat.strong_induction_on
    generalizing spot with
  | _ height inductionHypothesis =>
      subst height
      cases redundant : ground.roundIsRedundant spot with
      | false => exact ⟨spot, .refl, rfl, proper, redundant⟩
      | true =>
          obtain ⟨outer, reaches, sameState, lower, outerProper⟩ :=
            exists_outer coherent laidOut wellMade returnsBehindCalls proper redundant
          obtain ⟨outermost, reachesOn, isState, found⟩ :=
            inductionHypothesis _ lower outerProper rfl
          exact ⟨outermost, reaches.trans reachesOn, isState.trans sameState, found⟩

omit coherent laidOut wellMade returnsBehindCalls

/-- The outermost of the states that a walk above some frames is in. -/
def outermostState
    (state : Nat)
    (inner : List Nat) :
    Nat :=
  inner.getLast?.getD state

theorem outermostState_cons
    (state frame : Nat)
    (inner : List Nat) :
    outermostState state (frame :: inner) = outermostState frame inner := by
  rw [outermostState, List.getLast?_cons, Option.getD_some, outermostState]

/-- A stride inside a round can be taken above other frames too. -/
theorem Stride.elsewhere
    (loops : ground.network.PrecedenceLoop loop entering others blockEnd round)
    (stride : ground.Stride false ⟨state, inner ++ frames, base⟩ second)
    (inRound : round (outermostState state inner))
    (notBack : inner = [] → state ≠ loop) :
    ∃ next between,
      second = ⟨next, between ++ frames, base⟩ ∧
        round (outermostState next between) ∧
          ∀ (outer : List Nat) (lower : StackId),
            ground.Stride false ⟨state, inner ++ outer, lower⟩ ⟨next, between ++ outer, lower⟩ := by
  have isInside : inner = [] → (ground.network.state state).kind ≠ .ruleStop := by
    rintro rfl
    exact loops.inside inRound
  have inside (goesAlong : ground.GoesAlong ⟨state, inner ++ frames, base⟩) :
      (ground.network.state state).kind ≠ .ruleStop :=
    goesAlong.elim id fun atBottom =>
      isInside (List.append_eq_nil_iff.mp atBottom.2.1).1
  have goesOn {edge : Edge}
      (present : edge ∈ (ground.network.state state).edges)
      (isNil : inner = []) :
      round edge.next := by
    subst isNil
    exact loops.closed inRound (notBack rfl) present
  generalize isAll : inner ++ frames = all at stride inside
  cases stride with
  | @edge _ _ _ edge goesAlong present passes =>
      refine ⟨edge.target, inner, by rw [isAll], ?_, fun outer lower =>
        .edge (.inl (inside goesAlong)) present passes⟩
      cases inner with
      | nil => exact Edge.next_of_isPassed passes ▸ goesOn present rfl
      | cons frame inner =>
          rw [outermostState_cons] at inRound ⊢
          exact inRound
  | @call _ target rule follow precedence _ _ goesAlong present =>
      refine ⟨target, follow :: inner, by rw [← isAll]; rfl, ?_, fun outer lower =>
        .call (.inl (inside goesAlong)) present⟩
      rw [outermostState_cons]
      cases inner with
      | nil => exact goesOn present rfl
      | cons frame inner =>
          rw [outermostState_cons] at inRound ⊢
          exact inRound
  | @back _ frame _ _ stopped =>
      cases inner with
      | nil => exact absurd stopped (isInside rfl)
      | cons first inner =>
          simp only [List.cons_append, List.cons.injEq] at isAll
          obtain ⟨rfl, rfl⟩ := isAll
          rw [outermostState_cons] at inRound
          exact ⟨first, inner, rfl, inRound, fun outer lower => .back stopped⟩
  | under stopped =>
      exact absurd stopped (isInside (List.append_eq_nil_iff.mp isAll).1)

/-- Strides that begin inside a round come back to the loop, or can be taken above other frames
too. -/
theorem Strides.back_or_elsewhere
    (loops : ground.network.PrecedenceLoop loop entering others blockEnd round)
    (strides : ground.Strides steps ⟨state, inner ++ frames, base⟩ last)
    (inRound : round (outermostState state inner))
    (keeps : ground.Keeps last)
    (outer : List Nat)
    (lower : StackId) :
    (∃ fewer, fewer ≤ steps ∧ ground.Strides fewer ⟨loop, frames, base⟩ last) ∨
      ∃ other,
        ground.Strides steps ⟨state, inner ++ outer, lower⟩ other ∧
          ground.Keeps other ∧ other.state = last.state := by
  induction steps generalizing state inner with
  | zero =>
      cases strides with
      | stay =>
          -- What is kept at the end of a rule is kept at the bottom, which a round is above.
          have inside : (ground.network.state state).kind ≠ .ruleStop := by
            have isInside : inner = [] → (ground.network.state state).kind ≠ .ruleStop := by
              rintro rfl
              exact loops.inside inRound
            rcases keeps with ⟨inside | ⟨_, atBottom⟩, _⟩ | ⟨_, _, atBottom⟩
            · exact inside
            · exact isInside (List.append_eq_nil_iff.mp atBottom.1).1
            · exact isInside (List.append_eq_nil_iff.mp atBottom.1).1
          refine .inr ⟨_, .stay, .inl ⟨.inl inside, ?_⟩, rfl⟩
          rcases keeps with ⟨_, needsToken⟩ | ⟨_, stopped, _⟩
          · exact needsToken
          · exact absurd stopped inside
  | succ steps inductionHypothesis =>
      by_cases isBack : inner = [] ∧ state = loop
      · obtain ⟨rfl, rfl⟩ := isBack
        exact .inl ⟨steps + 1, le_rfl, strides⟩
      · cases strides with
        | stride stride rest =>
            obtain ⟨next, between, rfl, stillInRound, elsewhere⟩ :=
              stride.elsewhere loops inRound fun isNil isLoop => isBack ⟨isNil, isLoop⟩
            rcases inductionHypothesis rest stillInRound with
              ⟨fewer, few, comesBack⟩ | ⟨other, strides, found⟩
            · exact .inl ⟨fewer, by omega, comesBack⟩
            · exact .inr ⟨other, .stride (elsewhere outer lower) strides, found⟩

include coherent laidOut wellMade returnsBehindCalls

/-- What strides come to, strides with the shortcut come to. -/
theorem Strides.exists_with_shortcut
    (strides : ground.Strides steps spot last)
    (proper : ground.Proper spot)
    (keeps : ground.Keeps last) :
    ∃ other,
      ground.Reaches true spot other ∧ ground.Keeps other ∧ other.state = last.state := by
  induction steps using Nat.strong_induction_on generalizing spot last with
  | _ steps inductionHypothesis =>
      cases strides with
      | stay => exact ⟨spot, .refl, keeps, rfl⟩
      | @stride steps _ second _ stride rest =>
          by_cases taken : ground.Stride true spot second
          · obtain ⟨other, reaches, found⟩ :=
              inductionHypothesis steps (Nat.lt_succ_self steps) rest (taken.proper wellMade proper)
                keeps
            exact ⟨other, .head taken reaches, found⟩
          · have redundant : ground.roundIsRedundant spot = true := by
              by_contra notRedundant
              exact taken (stride.with_shortcut (Bool.eq_false_of_not_eq_true notRedundant))
            obtain ⟨_, above⟩ := above_of_roundIsRedundant redundant
            obtain ⟨isLoop, decides, _⟩ := of_roundIsRedundantAbove above
            obtain ⟨entering, others, blockEnd, round, loops⟩ := laidOut.loops isLoop decides
            obtain ⟨outer, reachesOuter, sameState, outerProper, outerTaken⟩ :=
              exists_outermost coherent laidOut wellMade returnsBehindCalls proper
            obtain ⟨loop, frames, base⟩ := spot
            obtain ⟨outerState, outerFrames, lower⟩ := outer
            dsimp only at sameState isLoop decides loops
            subst sameState
            -- The stride that is left out enters the block of operators.
            have entered : second = ⟨entering.target, [] ++ frames, base⟩ := by
              have isFirst {edge : Edge}
                  (present : edge ∈ ground.edgesTaken false ⟨outerState, frames, base⟩)
                  (isLeftOut : edge ∉ ground.edgesTaken true ⟨outerState, frames, base⟩) :
                  edge = entering := by
                simp_all [edgesTaken, loops.edges]
              cases stride with
              | edge goesAlong present passes =>
                  rw [isFirst present fun present => taken (.edge goesAlong present passes)]
                  rfl
              | call goesAlong present =>
                  have isEntering := isFirst present fun present => taken (.call goesAlong present)
                  have free := loops.enters
                  rw [← isEntering] at free
                  cases free
              | back stopped => exact absurd (.back stopped) taken
              | under stopped present => exact absurd (.under stopped present) taken
            subst entered
            rcases rest.back_or_elsewhere loops loops.begins keeps outerFrames lower with
              ⟨fewer, few, comesBack⟩ | ⟨other, elsewhere, otherKeeps, isState⟩
            · exact inductionHypothesis fewer (by omega) comesBack proper keeps
            · have enters :
                  ground.Stride true ⟨outerState, outerFrames, lower⟩
                    ⟨entering.target, outerFrames, lower⟩ := by
                refine .along (by simp [isLoop]) ?_ loops.enters
                simp [edgesTaken, outerTaken, loops.edges]
              obtain ⟨found, reaches, foundKeeps, sameState⟩ :=
                inductionHypothesis steps (Nat.lt_succ_self steps) elsewhere
                  (enters.proper wellMade outerProper) otherKeeps
              exact ⟨found, reachesOuter.trans (.head enters reaches), foundKeeps,
                sameState.trans isState⟩

end Ground

end Prediction

end GrammarService
