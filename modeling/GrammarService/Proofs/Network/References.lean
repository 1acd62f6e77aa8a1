import GrammarService.Proofs.Network.Coherent

namespace GrammarService

/-!
# No reference of a network leads nowhere

Whoever walks a network goes from number to number without looking whether there is a state. That is
safe in a network that was read from its encoding: all numbers in it lead to states, and to states
of the kind that is expected there. The two ends of a block know each other and no other block.
-/

namespace Network

/-- The numbers in a network lead to states, rules and modes that exist and are of the right kind. -/
structure NoDangling (network : Network) : Prop where
  target :
    ∀ {number : Nat} {edge : Edge},
      edge ∈ (network.state number).edges → IsPresent network.states edge.target
  call :
    ∀ {number target rule follow : Nat} {precedence : Int},
      Edge.call target rule precedence follow ∈ (network.state number).edges →
        rule < network.ruleCount ∧ IsPresent network.states follow
  predicate :
    ∀ {number target rule : Nat} {index : Int} {contextDependent : Bool},
      Edge.predicate target rule index contextDependent ∈ (network.state number).edges →
        rule < network.ruleCount
  stopCount : network.ruleStops.size = network.ruleCount
  ruleStart :
    ∀ {rule start : Nat},
      network.ruleStarts[rule]? = some start →
        ∃ state, network.states[start]? = some state ∧ state.kind = .ruleStart
  ruleStop :
    ∀ {rule stop : Nat},
      network.ruleStops[rule]? = some stop →
        ∃ state, network.states[stop]? = some state ∧ state.kind = .ruleStop ∧
          state.rule = some rule
  modeStart :
    ∀ {mode start : Nat},
      network.modeStarts[mode]? = some start →
        ∃ state, network.states[start]? = some state ∧ state.kind = .tokenStart
  lexerMode :
    ∀ {action : LexerAction} {mode : Nat},
      action ∈ network.lexerActions → action.mode? = some mode → mode < network.modeStarts.size
  decisionState :
    ∀ {decision number : Nat},
      network.decisions[decision]? = some number →
        ∃ state, network.states[number]? = some state ∧ state.kind.isDecision = true
  decision :
    ∀ {number decision : Nat},
      (network.state number).decision = some decision →
        network.decisions[decision]? = some number
  links :
    ∀ {number other : Nat},
      (network.state number).endState = some other ∨
          (network.state number).startState = some other ∨
            (network.state number).loopBackState = some other →
        IsPresent network.states other
  blockStart :
    ∀ {block : Nat},
      (network.state block).kind.isBlockStart = true →
        ∃ blockEnd,
          (network.state block).endState = some blockEnd ∧
            (network.state blockEnd).kind = .blockEnd ∧
              (network.state blockEnd).startState = some block ∧
                ∀ {other : Nat}, (network.state other).startState = some block → other = blockEnd
  epsilonOnly :
    ∀ number : Nat,
      (network.state number).epsilonOnly = true ↔
        (network.state number).edges ≠ [] ∧
          ∀ edge ∈ (network.state number).edges, edge.isEpsilon = true
  distinct :
    ∀ {number firstPlace secondPlace : Nat} {first second : Edge},
      firstPlace ≠ secondPlace →
        (network.state number).edges[firstPlace]? = some first →
          (network.state number).edges[secondPlace]? = some second →
            first.target = second.target →
              ¬ (first.isEpsilon = true ∧ second.isEpsilon = true) ∧
                ∀ label, first.label? = some label → second.label? ≠ some label
  returns :
    ∀ {number target rule follow : Nat} {precedence : Int},
      Edge.call target rule precedence follow ∈ (network.state number).edges →
        ∃ stop edge,
          network.ruleStops[rule]? = some stop ∧
            edge ∈ (network.state stop).edges ∧
              edge.isEpsilon = true ∧ edge.target = follow

namespace State

/-- Of which kind a state is, and what it says about the other ends of blocks and loops. -/
def joints (state : State) : StateKind × Option Nat × Option Nat × Option Nat :=
  (state.kind, state.endState, state.startState, state.loopBackState)

/-- What a state is apart from what leads back to it from the end of a block or loop. -/
def unreturned (state : State) : State :=
  { state with
    startState := none
    loopBackState := none }

/-- No edge of a state repeats another one. -/
def IsDistinct (state : State) : Prop :=
  state.edges.Pairwise fun earlier later => earlier.repeats later = false

/-- Adding an edge adds no repetition. -/
theorem IsDistinct.addEdge
    {state : State}
    (distinct : state.IsDistinct)
    (edge : Edge) :
    (state.addEdge edge).IsDistinct := by
  unfold IsDistinct State.addEdge
  dsimp only
  split
  · exact distinct
  · rename_i isNew
    simp only [Bool.not_eq_true, List.any_eq_false] at isNew
    refine List.pairwise_append.mpr ⟨distinct, List.pairwise_singleton _ _, ?_⟩
    intro present isPresent added isAdded
    cases List.mem_singleton.mp isAdded
    simpa using isNew present isPresent

end State

/-- Of two edges either both repeat each other or none the other. -/
theorem repeats_comm
    (first second : Edge) :
    first.repeats second = second.repeats first := by
  unfold Edge.repeats
  rw [Bool.beq_comm, Bool.and_comm first.isEpsilon]
  congr 2
  cases first.label? <;> cases second.label? <;> simp [Bool.beq_comm]

/-- Wherever two edges of a state stand, none repeats the other. -/
theorem State.IsDistinct.not_repeats
    {state : State}
    (distinct : state.IsDistinct)
    {firstPlace secondPlace : Nat}
    {first second : Edge}
    (different : firstPlace ≠ secondPlace)
    (isFirst : state.edges[firstPlace]? = some first)
    (isSecond : state.edges[secondPlace]? = some second) :
    first.repeats second = false := by
  obtain ⟨firstIn, rfl⟩ := List.getElem?_eq_some_iff.mp isFirst
  obtain ⟨secondIn, rfl⟩ := List.getElem?_eq_some_iff.mp isSecond
  rcases Nat.lt_or_gt_of_ne different with before | behind
  · exact List.pairwise_iff_getElem.mp distinct _ _ firstIn secondIn before
  · rw [repeats_comm]
    exact List.pairwise_iff_getElem.mp distinct _ _ secondIn firstIn behind

/-- Edges to the same state that do not repeat each other are not both free and list no symbols
that are the same. -/
theorem not_alike_of_not_repeats
    {first second : Edge}
    (distinct : first.repeats second = false)
    (sameTarget : first.target = second.target) :
    ¬ (first.isEpsilon = true ∧ second.isEpsilon = true) ∧
      ∀ label, first.label? = some label → second.label? ≠ some label := by
  simp only [Edge.repeats, sameTarget, beq_self_eq_true, Bool.true_and, Bool.or_eq_false_iff,
    Bool.and_eq_false_iff] at distinct
  obtain ⟨notFree, notSame⟩ := distinct
  refine ⟨?_, ?_⟩
  · rintro ⟨firstFree, secondFree⟩
    simp [firstFree, secondFree] at notFree
  · intro label isFirst isSecond
    simp [isFirst, isSecond] at notSame

/-- Adding edges adds no repetitions. -/
theorem isDistinct_addEdges
    {states : Array State}
    (distinct :
      ∀ {number : Nat} {state : State}, states[number]? = some state → state.IsDistinct)
    {edges : List (Nat × Edge)}
    {number : Nat}
    {state : State}
    (present : (addEdges states edges)[number]? = some state) :
    state.IsDistinct := by
  have kept :
      ∀ {number : Nat} {state : State},
        (addEdges states edges)[number]? = some state → state.IsDistinct := by
    refine foldl_keeps
      (fun after : Array State =>
        ∀ {number : Nat} {state : State}, after[number]? = some state → state.IsDistinct)
      ?_ distinct
    rintro ⟨source, added⟩ _ before holds number state present
    rw [Array.getElem?_modify] at present
    split at present
    · obtain ⟨old, wasPresent, rfl⟩ := Option.map_eq_some_iff.mp present
      exact (holds wasPresent).addEdge added
    · exact holds present
  exact kept present

/-- The states that loop back to other ones exist. -/
def LoopsBack (states : Array State) : Prop :=
  ∀ (number other : Nat) (state : State),
    states[number]? = some state → state.loopBackState = some other → IsPresent states other

/-- States that exist still do when one of them is changed but stays of its kind. -/
theorem IsPresent.modify
    {states : Array State}
    {number : Nat}
    (isPresent : IsPresent states number)
    {change : State → State}
    (kind : ∀ state, (change state).kind = state.kind)
    (place : Nat) :
    IsPresent (states.modify place change) number := by
  obtain ⟨state, present, valid⟩ := isPresent
  rw [IsPresent, Array.getElem?_modify, present]
  split
  · exact ⟨change state, rfl, kind state ▸ valid⟩
  · exact ⟨state, rfl, valid⟩

/-- A state may be changed if it keeps its kind and only gets links to states that exist. -/
theorem LoopsBack.modify
    {states : Array State}
    (loopsBack : LoopsBack states)
    (change : State → State)
    (kind : ∀ state, (change state).kind = state.kind)
    (loopBack :
      ∀ {state : State} {other : Nat},
        (change state).loopBackState = some other →
          state.loopBackState = some other ∨ IsPresent states other)
    (place : Nat) :
    LoopsBack (states.modify place change) := by
  intro number other state present isLink
  refine IsPresent.modify ?_ kind place
  rw [Array.getElem?_modify] at present
  split at present
  · obtain ⟨old, wasPresent, rfl⟩ := Option.map_eq_some_iff.mp present
    rcases loopBack isLink with wasLink | isPresent
    · exact loopsBack _ _ _ wasPresent wasLink
    · exact isPresent
  · exact loopsBack _ _ _ present isLink

/-- The links of states that were just read lead to states, those of blocks to block ends. -/
structure LinksRead (states : Array State) : Prop where
  loopsBack : LoopsBack states
  blockEnd :
    ∀ {number other : Nat} {state : State},
      states[number]? = some state →
        state.endState = some other →
          ∃ blockEnd, states[other]? = some blockEnd ∧ blockEnd.kind = .blockEnd
  blockStart :
    ∀ {number : Nat} {state : State},
      states[number]? = some state → state.startState = none

namespace LinksRead

variable {states : Array State} (read : LinksRead states)

include read

/-- A state may be given links that lead where they should. -/
theorem modify
    (change : State → State)
    (kind : ∀ state, (change state).kind = state.kind)
    (loopBack :
      ∀ {state : State} {other : Nat},
        (change state).loopBackState = some other →
          state.loopBackState = some other ∨ IsPresent states other)
    (blockEnd :
      ∀ {state : State} {other : Nat},
        (change state).endState = some other →
          state.endState = some other ∨
            ∃ blockEnd, states[other]? = some blockEnd ∧ blockEnd.kind = .blockEnd)
    (blockStart : ∀ state, (change state).startState = state.startState)
    (place : Nat) :
    LinksRead (states.modify place change) where
  loopsBack := read.loopsBack.modify change kind loopBack place
  blockEnd := by
    intro number other state present isLink
    obtain ⟨found, isThere, isEnd⟩ :
        ∃ found, states[other]? = some found ∧ found.kind = .blockEnd := by
      rw [Array.getElem?_modify] at present
      split at present
      · obtain ⟨old, wasPresent, rfl⟩ := Option.map_eq_some_iff.mp present
        rcases blockEnd isLink with wasLink | isEnd
        · exact read.blockEnd wasPresent wasLink
        · exact isEnd
      · exact read.blockEnd present isLink
    rw [Array.getElem?_modify, isThere]
    split
    · exact ⟨change found, rfl, (kind found).trans isEnd⟩
    · exact ⟨found, rfl, isEnd⟩
  blockStart := by
    intro number state present
    rw [Array.getElem?_modify] at present
    split at present
    · obtain ⟨old, wasPresent, rfl⟩ := Option.map_eq_some_iff.mp present
      rw [blockStart]
      exact read.blockStart wasPresent
    · exact read.blockStart present

/-- Only the joints of states matter to their links. -/
theorem congr
    {after : Array State}
    (same : after.map State.joints = states.map State.joints) :
    LinksRead after where
  loopsBack := by
    intro number other state present isLink
    obtain ⟨old, wasPresent, sameJoints⟩ := exists_of_map_eq same present
    simp only [State.joints, Prod.mk.injEq] at sameJoints
    obtain ⟨found, isThere, valid⟩ :=
      read.loopsBack _ _ _ wasPresent (sameJoints.2.2.2 ▸ isLink)
    obtain ⟨later, isLater, sameFound⟩ := exists_of_map_eq same.symm isThere
    exact ⟨later, isLater, fun invalid => valid ((congrArg Prod.fst sameFound).trans invalid)⟩
  blockEnd := by
    intro number other state present isLink
    obtain ⟨old, wasPresent, sameJoints⟩ := exists_of_map_eq same present
    simp only [State.joints, Prod.mk.injEq] at sameJoints
    obtain ⟨found, isThere, isEnd⟩ := read.blockEnd wasPresent (sameJoints.2.1 ▸ isLink)
    obtain ⟨later, isLater, sameFound⟩ := exists_of_map_eq same.symm isThere
    exact ⟨later, isLater, (congrArg Prod.fst sameFound).symm.trans isEnd⟩
  blockStart := by
    intro number state present
    obtain ⟨old, wasPresent, sameJoints⟩ := exists_of_map_eq same present
    simp only [State.joints, Prod.mk.injEq] at sameJoints
    rw [sameJoints.2.2.1]
    exact read.blockStart wasPresent

/-- Loop ends are linked to states that exist. -/
theorem linkLoopEnds
    {encoded : List EncodedState}
    {after : Array State}
    (linked : Network.linkLoopEnds encoded states = .ok after) :
    LinksRead after := by
  refine foldlM_keeps LinksRead ?_ linked read
  intro entry _ before next read stepped
  split at stepped
  · split at stepped
    · obtain ⟨loopBack, isReference, stepped⟩ := ok_of_bind stepped
      cases stepped
      refine read.modify ({ · with loopBackState := some loopBack }) (fun _ => rfl) ?_ .inl
        (fun _ => rfl) _
      rintro state other ⟨⟩
      exact .inr (isPresent_of_stateReference isReference)
    · cases stepped
      exact read
  · cases stepped
    exact read

/-- Block starts are linked to block ends. -/
theorem linkBlockStarts
    {encoded : List EncodedState}
    {after : Array State}
    (linked : Network.linkBlockStarts encoded states = .ok after) :
    LinksRead after := by
  refine foldlM_keeps LinksRead ?_ linked read
  intro entry _ before next read stepped
  split at stepped
  · split at stepped
    · obtain ⟨blockEnd, isReference, stepped⟩ := ok_of_bind stepped
      cases stepped
      refine read.modify ({ · with endState := some blockEnd }) (fun _ => rfl) .inl ?_
        (fun _ => rfl) _
      rintro state other ⟨⟩
      exact .inr (kind_of_stateReferenceOf isReference)
    · cases stepped
      exact read
  · cases stepped
    exact read

end LinksRead

/-- States that were read are linked to states that exist. -/
theorem linksRead_of_decodeStates
    {states : Array State}
    (reads : Decoder.Reads decodeStates states) :
    LinksRead states := by
  obtain ⟨encoded, readsEncoded, reads⟩ := Decoder.reads_bind reads
  obtain ⟨linked, readsLinked, reads⟩ := Decoder.reads_bind reads
  have isBare :
      ∀ {number : Nat} {state : State},
        (encoded.map EncodedState.state).toArray[number]? = some state →
          ∃ kind rule, state = State.bare number kind rule := by
    intro number state present
    rw [List.getElem?_toArray, List.getElem?_map] at present
    obtain ⟨entry, isEntry, rfl⟩ := Option.map_eq_some_iff.mp present
    exact state_of_decodeState (Decoder.reads_counted readsEncoded isEntry)
  have unlinked : LinksRead (encoded.map EncodedState.state).toArray := by
    refine ⟨?_, ?_, ?_⟩
    · intro number other state present isLink
      obtain ⟨kind, rule, rfl⟩ := isBare present
      cases isLink
    · intro number other state present isLink
      obtain ⟨kind, rule, rfl⟩ := isBare present
      cases isLink
    · intro number state present
      obtain ⟨kind, rule, rfl⟩ := isBare present
      rfl
  exact (unlinked.linkLoopEnds (Decoder.reads_lift readsLinked)).linkBlockStarts
    (Decoder.reads_lift reads)

/-- What holds at first and is carried on by each number of a range holds behind the range. -/
theorem foldlM_range
    {step : β → Nat → Except ε β}
    (property : Nat → β → Prop)
    {length : Nat}
    (carries :
      ∀ {count : Nat}, count < length →
        ∀ {before after : β},
          property count before → step before count = .ok after → property (count + 1) after)
    {before after : β}
    (folded : (List.range length).foldlM step before = .ok after)
    (holds : property 0 before) :
    property length after := by
  induction length generalizing after with
  | zero =>
      cases folded
      exact holds
  | succ length inductionHypothesis =>
      rw [List.range_succ, List.foldlM_append] at folded
      obtain ⟨middle, earlier, folded⟩ := ok_of_bind folded
      rw [List.foldlM_cons] at folded
      obtain ⟨last, stepped, folded⟩ := ok_of_bind folded
      cases folded
      refine carries (Nat.lt_succ_self length) ?_ stepped
      exact inductionHypothesis (fun inRange => carries (Nat.lt_succ_of_lt inRange)) earlier

/-- The blocks with numbers below a bound are linked to their ends and back, and no other ones. -/
structure LinkedUpTo
    (before : Array State)
    (bound : Nat)
    (after : Array State) :
    Prop where
  same : after.map State.unreturned = before.map State.unreturned
  loopsBack : LoopsBack after
  blockStart :
    ∀ {number block : Nat} {state : State},
      after[number]? = some state →
        (state.startState = some block ↔
          block < bound ∧
            ∃ start,
              before[block]? = some start ∧ start.kind.isBlockStart = true ∧
                start.endState = some number)
  blockEnd :
    ∀ {block : Nat} {start : State},
      block < bound →
        before[block]? = some start →
          start.kind.isBlockStart = true → ∃ number, start.endState = some number

namespace LinkedUpTo

variable {before states : Array State} {bound : Nat}

/-- Linking the heads of loops leaves the links of blocks alone. -/
theorem linkLoopHeads
    (linked : LinkedUpTo before bound states)
    {state : State}
    (isPresent : state.kind ≠ .invalid → IsPresent states state.number) :
    LinkedUpTo before bound (Network.linkLoopHeads states state) := by
  unfold Network.linkLoopHeads
  cases isLoop : loopHeadKind? state.kind with
  | none => exact linked
  | some head =>
      have exists_ : IsPresent states state.number := by
        apply isPresent
        intro invalid
        rw [invalid] at isLoop
        cases isLoop
      refine (foldl_keeps
        (fun after : Array State =>
          IsPresent after state.number ∧ LinkedUpTo before bound after) ?_ ⟨exists_, linked⟩).2
      rintro edge _ states ⟨exists_, linked⟩
      have kind :
          ∀ target : State,
            (if target.kind = head then
              { target with loopBackState := some state.number }
            else
              target).kind = target.kind := by
        intro target
        split <;> rfl
      refine ⟨exists_.modify kind edge.target, ?_, ?_, ?_, linked.blockEnd⟩
      · rw [← linked.same]
        apply map_modify
        intro target
        split <;> rfl
      · refine linked.loopsBack.modify _ kind ?_ edge.target
        intro target other isLink
        split at isLink
        · cases isLink
          exact .inr exists_
        · exact .inl isLink
      · intro number block target present
        rw [Array.getElem?_modify] at present
        split at present
        · obtain ⟨old, wasPresent, rfl⟩ := Option.map_eq_some_iff.mp present
          rw [← linked.blockStart wasPresent]
          split <;> rfl
        · exact linked.blockStart present

/-- The same blocks end at a state when the next state starts none that ends there. -/
theorem endsAt_succ_iff
    {block number : Nat}
    (endsElsewhere :
      ∀ {start : State},
        before[bound]? = some start →
          start.kind.isBlockStart = true → start.endState ≠ some number) :
    (block < bound + 1 ∧
        ∃ start,
          before[block]? = some start ∧ start.kind.isBlockStart = true ∧
            start.endState = some number) ↔
      block < bound ∧
        ∃ start,
          before[block]? = some start ∧ start.kind.isBlockStart = true ∧
            start.endState = some number := by
  constructor
  · rintro ⟨inBounds, start, isThere, startsBlock, endsThere⟩
    refine ⟨?_, start, isThere, startsBlock, endsThere⟩
    rcases Nat.lt_succ_iff_lt_or_eq.mp inBounds with isEarlier | rfl
    · exact isEarlier
    · exact absurd endsThere (endsElsewhere isThere startsBlock)
  · rintro ⟨isEarlier, rest⟩
    exact ⟨Nat.lt_succ_of_lt isEarlier, rest⟩

/-- A state that starts no block has no end to be linked to. -/
theorem skip
    (linked : LinkedUpTo before bound states)
    (startsNone :
      ∀ {start : State}, before[bound]? = some start → ¬ start.kind.isBlockStart = true) :
    LinkedUpTo before (bound + 1) states := by
  refine ⟨linked.same, linked.loopsBack, ?_, ?_⟩
  · intro number block target isTarget
    rw [linked.blockStart isTarget, endsAt_succ_iff]
    exact fun isThere startsBlock => absurd startsBlock (startsNone isThere)
  · intro block start inBounds isThere startsBlock
    rcases Nat.lt_succ_iff_lt_or_eq.mp inBounds with isEarlier | rfl
    · exact linked.blockEnd isEarlier isThere startsBlock
    · exact absurd startsBlock (startsNone isThere)

/-- A state that starts a block is linked to the end of the block, as long as this end is free. -/
theorem link
    (linked : LinkedUpTo before bound states)
    {start : State}
    (present : before[bound]? = some start)
    (startsBlock : start.kind.isBlockStart = true)
    {blockEnd : Nat}
    (endsThere : start.endState = some blockEnd)
    (free :
      ∀ {target : State}, states[blockEnd]? = some target → target.startState = none) :
    LinkedUpTo before (bound + 1)
      (states.modify blockEnd ({ · with startState := some bound })) := by
  have only : ∀ {other : State}, before[bound]? = some other → other = start := by
    intro other isThere
    rw [present, Option.some.injEq] at isThere
    exact isThere.symm
  refine ⟨?_, ?_, ?_, ?_⟩
  · rw [← linked.same]
    apply map_modify
    exact fun _ => rfl
  · exact linked.loopsBack.modify ({ · with startState := some bound }) (fun _ => rfl) .inl
      blockEnd
  · intro number block target isTarget
    rw [Array.getElem?_modify] at isTarget
    split at isTarget
    · rename_i isBlockEnd
      subst isBlockEnd
      obtain ⟨earlier, wasTarget, rfl⟩ := Option.map_eq_some_iff.mp isTarget
      constructor
      · rintro ⟨⟩
        exact ⟨Nat.lt_succ_self bound, start, present, startsBlock, endsThere⟩
      · rintro ⟨inBounds, other, isThere, otherStarts, otherEnds⟩
        rcases Nat.lt_succ_iff_lt_or_eq.mp inBounds with isEarlier | rfl
        · have taken :=
            (linked.blockStart wasTarget).mpr ⟨isEarlier, other, isThere, otherStarts, otherEnds⟩
          rw [free wasTarget] at taken
          cases taken
        · rfl
    · rename_i notBlockEnd
      rw [linked.blockStart isTarget, endsAt_succ_iff]
      intro other isThere _ otherEnds
      rw [only isThere, endsThere, Option.some.injEq] at otherEnds
      exact notBlockEnd otherEnds
  · intro block other inBounds isThere otherStarts
    rcases Nat.lt_succ_iff_lt_or_eq.mp inBounds with isEarlier | rfl
    · exact linked.blockEnd isEarlier isThere otherStarts
    · rw [only isThere]
      exact ⟨blockEnd, endsThere⟩

/-- The next state is linked to the end of its block, if it starts one. -/
theorem linkBlockEnd
    (linked : LinkedUpTo before bound states)
    {state : State}
    (present : states[bound]? = some state)
    (isNumber : state.number = bound)
    {after : Array State}
    (links : Network.linkBlockEnd states state = .ok after) :
    LinkedUpTo before (bound + 1) after := by
  obtain ⟨old, wasPresent, sameState⟩ := exists_of_map_eq linked.same present
  have sameKind : state.kind = old.kind := (congrArg State.kind sameState :)
  have sameEnd : state.endState = old.endState := (congrArg State.endState sameState :)
  unfold Network.linkBlockEnd at links
  split at links
  · rename_i isStart
    cases isEnd : state.endState with
    | none => simp [isEnd] at links
    | some blockEnd =>
        simp only [isEnd] at links
        split at links
        · cases links
        · rename_i free
          cases links
          rw [isNumber]
          refine linked.link wasPresent (sameKind ▸ isStart) (sameEnd ▸ isEnd) ?_
          intro target isTarget
          simpa [Array.getD_eq_getD_getElem?, isTarget] using free
  · rename_i noStart
    cases links
    refine linked.skip ?_
    intro start isThere startsBlock
    rw [wasPresent, Option.some.injEq] at isThere
    rw [← isThere, ← sameKind] at startsBlock
    exact noStart startsBlock

/-- Linking the next state links its block, and nothing else. -/
theorem step
    (numbered :
      ∀ {number : Nat} {state : State}, before[number]? = some state → state.number = number)
    (linked : LinkedUpTo before bound states)
    (inBounds : bound < before.size)
    {after : Array State}
    (stepped :
      (do
        let state := states.getD bound (State.bare bound .invalid none)
        let states ← Network.linkBlockEnd states state
        return Network.linkLoopHeads states state) = Except.ok after) :
    LinkedUpTo before (bound + 1) after := by
  have sameSize : states.size = before.size := by
    simpa using congrArg Array.size linked.same
  have present : states[bound]? = some states[bound] := Array.getElem?_eq_getElem (by omega)
  obtain ⟨old, wasPresent, sameState⟩ := exists_of_map_eq linked.same present
  have sameNumber : states[bound].number = old.number := (congrArg State.number sameState :)
  have isNumber : states[bound].number = bound := sameNumber.trans (numbered wasPresent)
  have isState : states.getD bound (State.bare bound .invalid none) = states[bound] := by
    simp [Array.getD_eq_getD_getElem?, present]
  obtain ⟨middle, linksEnd, stepped⟩ := ok_of_bind stepped
  cases stepped
  rw [isState] at linksEnd ⊢
  have linkedEnd := linked.linkBlockEnd present isNumber linksEnd
  refine linkedEnd.linkLoopHeads fun valid => ?_
  have same := linked.same.trans linkedEnd.same.symm
  obtain ⟨later, isLater, sameLater⟩ := exists_of_map_eq same present
  rw [isNumber]
  exact ⟨later, isLater, (congrArg State.kind sameLater).symm ▸ valid⟩

/-- No block is linked before the first state is. -/
theorem zero (read : LinksRead before) : LinkedUpTo before 0 before := by
  refine ⟨rfl, read.loopsBack, ?_, ?_⟩
  · intro number block state present
    simp [read.blockStart present]
  · intro block start inBounds
    omega

end LinkedUpTo

/-- Linking links all blocks to their ends and back. -/
theorem linkedUpTo_of_linkStates
    {before after : Array State}
    (read : LinksRead before)
    (numbered :
      ∀ {number : Nat} {state : State}, before[number]? = some state → state.number = number)
    (links : linkStates before = .ok after) :
    LinkedUpTo before before.size after := by
  refine foldlM_range (LinkedUpTo before) ?_ links (.zero read)
  intro bound inBounds states next linked stepped
  exact linked.step numbered inBounds stepped

/-- Where every item gives a value, there are as many values as items. -/
theorem length_of_mapM
    {give : α → Except ε β}
    {items : List α}
    {values : List β}
    (succeeds : items.mapM give = .ok values) :
    values.length = items.length := by
  induction items generalizing values with
  | nil =>
      cases succeeds
      rfl
  | cons head tail inductionHypothesis =>
      rw [List.mapM_cons] at succeeds
      obtain ⟨first, _, succeeds⟩ := ok_of_bind succeeds
      obtain ⟨others, givesOthers, succeeds⟩ := ok_of_bind succeeds
      cases succeeds
      rw [List.length_cons, List.length_cons, inductionHypothesis givesOthers]

namespace Readings

variable (readings : Readings)

/-- The states once all edges were added know their numbers. -/
theorem numbered_complete
    {number : Nat}
    {state : State}
    (present : readings.stages.complete[number]? = some state) :
    state.number = number := by
  obtain ⟨bare, isBare, same⟩ := exists_of_map_eq readings.stages.map_edgeless present
  obtain ⟨kind, rule, isFirst⟩ := readings.bare_unmarked isBare
  exact (State.eq_of_edgeless_eq same).1.trans (congrArg State.number isFirst)

/-- Marks and edges leave the links alone that were read. -/
theorem linksRead_complete : LinksRead readings.stages.complete := by
  have bare : readings.bare.map State.joints = readings.first.map State.joints := by
    refine (map_of_decodeMarks ?_ readings.readsBare).trans
      (map_of_decodeMarks ?_ readings.readsGreedy)
    · exact fun _ => rfl
    · exact fun _ => rfl
  have complete :
      readings.stages.complete.map State.joints = readings.bare.map State.joints := by
    have same := congrArg (Array.map State.joints) readings.stages.map_edgeless
    rwa [Array.map_map, Array.map_map] at same
  exact (linksRead_of_decodeStates readings.readsFirst).congr (complete.trans bare)

/-- All blocks are linked to their ends and back. -/
theorem linkedUpTo :
    LinkedUpTo readings.stages.complete readings.stages.complete.size readings.linked :=
  linkedUpTo_of_linkStates readings.linksRead_complete readings.numbered_complete readings.links

/-- Decisions and marks on precedence leave the links alone. -/
theorem map_joints :
    readings.network.states.map State.joints = readings.linked.map State.joints := by
  refine Eq.trans ?_ (map_numberDecisions (fun _ _ => rfl) readings.linked readings.decisions)
  change (markPrecedenceDecisions _ _).map State.joints = _
  rw [markPrecedenceDecisions, Array.map_map]
  apply Array.map_congr_left
  intro state _
  simp only [Function.comp_apply]
  split <;> rfl

/-- The kinds and block ends of states are those that were read. -/
theorem joints_complete
    {number : Nat}
    {state complete : State}
    (present : readings.network.states[number]? = some state)
    (isComplete : readings.stages.complete[number]? = some complete) :
    state.kind = complete.kind ∧ state.endState = complete.endState := by
  obtain ⟨linked, isLinked, same⟩ := exists_of_map_eq readings.map_joints present
  obtain ⟨found, isFound, same'⟩ := exists_of_map_eq readings.linkedUpTo.same isLinked
  rw [isComplete, Option.some.injEq] at isFound
  subst isFound
  simp only [State.joints, Prod.mk.injEq] at same
  have sameKind : linked.kind = complete.kind := (congrArg State.kind same' :)
  have sameEnd : linked.endState = complete.endState := (congrArg State.endState same' :)
  exact ⟨same.1.trans sameKind, same.2.1.trans sameEnd⟩

/-- A state that was read is a state of the network, of the same kind and the same rule. -/
theorem exists_of_bare
    {number : Nat}
    {bare : State}
    (isBare : readings.bare[number]? = some bare) :
    ∃ state, readings.network.states[number]? = some state ∧ state.kind = bare.kind ∧
      state.rule = bare.rule := by
  obtain ⟨complete, isComplete, same⟩ :=
    exists_of_map_eq readings.stages.map_edgeless.symm isBare
  obtain ⟨state, present, same'⟩ :=
    exists_of_map_eq readings.stages.map_skeleton.symm isComplete
  have sameKind : bare.kind = complete.kind := (congrArg State.kind same :)
  have sameRule : bare.rule = complete.rule := (congrArg State.rule same :)
  have sameKind' : complete.kind = state.kind := (congrArg State.kind same' :)
  have sameRule' : complete.rule = state.rule := (congrArg State.rule same' :)
  exact ⟨state, present, (sameKind.trans sameKind').symm, (sameRule.trans sameRule').symm⟩

/-- Every rule has a stop. -/
theorem length_stops : readings.stops.length = readings.rules.length := by
  have sameLength := length_of_mapM readings.foundStops
  rwa [List.length_range] at sameLength

/-- The state of a decision is one that may have to choose. -/
theorem isDecision
    {decision number : Nat}
    (present : readings.decisions[decision]? = some number) :
    ∃ state, readings.linked[number]? = some state ∧ state.kind.isDecision = true := by
  have reads := Decoder.reads_counted readings.readsDecisions present
  obtain ⟨value, _, reads⟩ := Decoder.reads_bind reads
  obtain ⟨found, isReference, reads⟩ := Decoder.reads_bind reads
  obtain ⟨state, isThere, _⟩ := isPresent_of_stateReference (Decoder.reads_lift isReference)
  dsimp only at reads
  split at reads
  · rename_i decides
    cases Decoder.reads_pure reads
    refine ⟨state, isThere, ?_⟩
    simpa [Array.getD_eq_getD_getElem?, isThere] using decides
  · exact absurd reads Decoder.not_reads_malformed

/-- The start of a mode is a token start. -/
theorem modeStart
    {mode start : Nat}
    (present : readings.modes[mode]? = some start) :
    ∃ state, readings.bare[start]? = some state ∧ state.kind = .tokenStart := by
  have reads := Decoder.reads_counted readings.readsModes present
  obtain ⟨value, _, reads⟩ := Decoder.reads_bind reads
  exact kind_of_stateReferenceOf (Decoder.reads_lift reads)

end Readings

/-- A number stands for a state of a network, or for none. -/
theorem state_cases
    (network : Network)
    (number : Nat) :
    network.states[number]? = some (network.state number) ∨
      network.state number = State.bare number .invalid none := by
  cases present : network.states[number]? with
  | some state => exact .inl (by rw [state_eq_of_getElem? present])
  | none => exact .inr (by simp [state, Array.getD_eq_getD_getElem?, present])

namespace Readings

variable (readings : Readings)

/-- What a state is linked to exists. -/
theorem isPresent_of_link
    {number other : Nat}
    (linked :
      (readings.network.state number).endState = some other ∨
        (readings.network.state number).startState = some other ∨
          (readings.network.state number).loopBackState = some other) :
    IsPresent readings.network.states other := by
  rcases state_cases readings.network number with present | isBare
  · obtain ⟨between, isBetween, same⟩ := exists_of_map_eq readings.map_joints present
    obtain ⟨complete, isComplete, -⟩ :=
      exists_of_map_eq readings.linkedUpTo.same isBetween
    simp only [State.joints, Prod.mk.injEq] at same
    -- States are present in the network if they are once all edges were added, or linked.
    have ofLinked : ∀ {number : Nat}, IsPresent readings.linked number →
        IsPresent readings.network.states number := by
      rintro number ⟨state, isThere, valid⟩
      obtain ⟨later, isLater, sameLater⟩ := exists_of_map_eq readings.map_joints.symm isThere
      exact ⟨later, isLater, fun invalid => valid ((congrArg Prod.fst sameLater).trans invalid)⟩
    have ofComplete : ∀ {number : Nat}, IsPresent readings.stages.complete number →
        IsPresent readings.network.states number := by
      rintro number ⟨state, isThere, valid⟩
      obtain ⟨later, isLater, -⟩ := exists_of_map_eq readings.stages.map_skeleton.symm isThere
      exact ⟨later, isLater, (readings.joints_complete isLater isThere).1 ▸ valid⟩
    rcases linked with isEnd | isStart | isLoop
    · rw [(readings.joints_complete present isComplete).2] at isEnd
      obtain ⟨blockEnd, isThere, kind⟩ := readings.linksRead_complete.blockEnd isComplete isEnd
      exact ofComplete ⟨blockEnd, isThere, by simp [kind]⟩
    · rw [same.2.2.1] at isStart
      obtain ⟨-, start, isThere, startsBlock, -⟩ :=
        (readings.linkedUpTo.blockStart isBetween).mp isStart
      refine ofComplete ⟨start, isThere, fun invalid => ?_⟩
      rw [invalid] at startsBlock
      cases startsBlock
    · rw [same.2.2.2] at isLoop
      exact ofLinked (readings.linkedUpTo.loopsBack _ _ _ isBetween isLoop)
  · rw [isBare] at linked
    simp [State.bare] at linked

/-- A block start and the end of its block know each other, and no other block ends there. -/
theorem blockStart
    {block : Nat}
    (isStart : (readings.network.state block).kind.isBlockStart = true) :
    ∃ blockEnd,
      (readings.network.state block).endState = some blockEnd ∧
        (readings.network.state blockEnd).kind = .blockEnd ∧
          (readings.network.state blockEnd).startState = some block ∧
            ∀ {other : Nat},
              (readings.network.state other).startState = some block → other = blockEnd := by
  rcases state_cases readings.network block with present | isBare
  · obtain ⟨complete, isComplete, -⟩ := exists_of_map_eq readings.stages.map_skeleton present
    obtain ⟨sameKind, sameEnd⟩ := readings.joints_complete present isComplete
    rw [sameKind] at isStart
    obtain ⟨blockEnd, isEnd⟩ :=
      readings.linkedUpTo.blockEnd (Array.getElem?_eq_some_iff.mp isComplete).1 isComplete
        isStart
    obtain ⟨ending, isThere, kind⟩ := readings.linksRead_complete.blockEnd isComplete isEnd
    obtain ⟨final, isFinal, -⟩ := exists_of_map_eq readings.stages.map_skeleton.symm isThere
    -- Where a state says that a block starts, it is the end of that block.
    have starts :
        ∀ {other : Nat} {state : State},
          readings.network.states[other]? = some state →
            (state.startState = some block ↔ other = blockEnd) := by
      intro other state isState
      obtain ⟨between, isBetween, same⟩ := exists_of_map_eq readings.map_joints isState
      simp only [State.joints, Prod.mk.injEq] at same
      rw [same.2.2.1, readings.linkedUpTo.blockStart isBetween]
      constructor
      · rintro ⟨-, start, isOther, -, endsThere⟩
        rw [isComplete, Option.some.injEq] at isOther
        rw [← isOther, isEnd, Option.some.injEq] at endsThere
        exact endsThere.symm
      · rintro rfl
        exact ⟨(Array.getElem?_eq_some_iff.mp isComplete).1, complete, isComplete, isStart,
          isEnd⟩
    have isFinalState := state_eq_of_getElem? isFinal
    refine ⟨blockEnd, sameEnd.trans isEnd, ?_, ?_, ?_⟩
    · rw [isFinalState, (readings.joints_complete isFinal isThere).1, kind]
    · rw [isFinalState]
      exact (starts isFinal).mpr rfl
    · intro other isOther
      rcases state_cases readings.network other with isThere | isBare
      · exact (starts isThere).mp isOther
      · rw [isBare] at isOther
        cases isOther
  · rw [isBare] at isStart
    cases isStart

/-- No edge of a state repeats another one. -/
theorem isDistinct (number : Nat) : (readings.network.state number).IsDistinct := by
  rcases state_cases readings.network number with present | isBare
  · obtain ⟨complete, isComplete, sameEdges, -⟩ := readings.stages.exists_complete present
    have distinct : complete.IsDistinct := by
      refine isDistinct_addEdges (fun isJoined => isDistinct_addEdges (fun isBare => ?_) isJoined)
        isComplete
      rw [State.IsDistinct, readings.stages.edges_bare isBare]
      exact .nil
    rwa [State.IsDistinct, sameEdges]
  · rw [isBare]
    exact .nil

end Readings

/-- In a network that was read from its encoding no reference leads nowhere. -/
theorem noDangling_of_decode
    {data : List Int}
    {network : Network}
    (decoded : decode data = .ok network) :
    network.NoDangling := by
  have coherent := coherent_of_decode decoded
  obtain ⟨readings, rfl⟩ := readings_of_decode decoded
  refine {
    target := coherent.target
    call := fun isEdge => ⟨(coherent.call isEdge).1, (coherent.call isEdge).2.2⟩
    predicate := fun isEdge => (readings.stages.isSound isEdge).predicate rfl
    stopCount := ?_
    ruleStart := ?_
    ruleStop := ?_
    modeStart := ?_
    lexerMode := coherent.lexerMode
    decisionState := ?_
    decision := coherent.decision
    links := readings.isPresent_of_link
    blockStart := readings.blockStart
    epsilonOnly := ?_
    distinct := ?_
    returns := ?_ }
  · simp [Readings.network, ruleCount, readings.length_stops]
  · intro rule start present
    simp only [Readings.network, List.getElem?_toArray, List.getElem?_map,
      Option.map_eq_some_iff] at present
    obtain ⟨entry, isEntry, rfl⟩ := present
    obtain ⟨bare, isBare, kind⟩ := start_of_decodeRules readings.readsRules isEntry
    obtain ⟨state, isThere, sameKind, -⟩ := readings.exists_of_bare isBare
    exact ⟨state, isThere, sameKind.trans kind⟩
  · intro rule stop present
    simp only [Readings.network, List.getElem?_toArray] at present
    have inRules : rule < readings.rules.length :=
      readings.length_stops ▸ (List.getElem?_eq_some_iff.mp present).1
    obtain ⟨found, bare, isFound, isBare, kind, isOfRule⟩ := readings.stop inRules
    rw [present, Option.some.injEq] at isFound
    subst isFound
    obtain ⟨state, isThere, sameKind, sameRule⟩ := readings.exists_of_bare isBare
    exact ⟨state, isThere, sameKind.trans kind, sameRule.trans isOfRule⟩
  · intro mode start present
    simp only [Readings.network, List.getElem?_toArray] at present
    obtain ⟨bare, isBare, kind⟩ := readings.modeStart present
    obtain ⟨state, isThere, sameKind, -⟩ := readings.exists_of_bare isBare
    exact ⟨state, isThere, sameKind.trans kind⟩
  · intro decision number present
    simp only [Readings.network, List.getElem?_toArray] at present
    obtain ⟨linked, isLinked, decides⟩ := readings.isDecision present
    obtain ⟨state, isThere, same⟩ := exists_of_map_eq readings.map_joints.symm isLinked
    have sameKind : linked.kind = state.kind := congrArg Prod.fst same
    exact ⟨state, isThere, sameKind ▸ decides⟩
  · intro number
    rw [coherent.epsilonOnly number]
    simp
  · intro number firstPlace secondPlace first second different isFirst isSecond sameTarget
    have distinct := readings.isDistinct number
    have noRepetition := distinct.not_repeats different isFirst isSecond
    exact not_alike_of_not_repeats noRepetition sameTarget
  · intro number target rule follow precedence isCall
    obtain ⟨edge, isEdge, isFree, leads⟩ := coherent.returns isCall
    have inRules : rule < readings.stops.length := by
      rw [readings.length_stops]
      simpa [Readings.network, ruleCount] using (coherent.call isCall).1
    refine ⟨readings.stops[rule], edge, ?_, ?_, isFree, leads⟩
    · simp [Readings.network, inRules]
    · simpa [Readings.network, Array.getD_eq_getD_getElem?, inRules] using isEdge

namespace Choice

/-- The network of the rule `s : 'a' | 'b' ;`, with a block from state 2 to state 3. -/
def data : List Int :=
  [4, 1, 2, 6, 2, 0, 7, 0, 3, 0, 3, 8, 0, 1, 0, 1, 0, 0, 0, 1, 0, 0, 0,
    6,
    0, 2, 1, 0, 0, 0, 2, 4, 1, 0, 0, 0, 2, 5, 1, 0, 0, 0,
    4, 3, 5, 1, 0, 0, 5, 3, 5, 2, 0, 0, 3, 1, 1, 0, 0, 0,
    1, 2]

/-- The network itself. -/
def network : Network :=
  (decode data).toOption.getD default

/-- No reference of the network leads nowhere. -/
theorem noDangling : decode data = .ok network ∧ network.NoDangling :=
  ⟨by cbv, noDangling_of_decode (show decode data = .ok network by cbv)⟩

end Choice

end Network

end GrammarService
