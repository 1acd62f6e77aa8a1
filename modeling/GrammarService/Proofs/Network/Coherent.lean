import Mathlib
import GrammarService.Network.Decode
import GrammarService.Proofs.Steps

namespace GrammarService

/-!
# What reading a network ensures

A network that was read from its encoding is coherent: states know their numbers, references lead
to states of the right kind, the ends of rules lead to where the rules are called from, and the
derived marks say what they should.
-/

namespace Network

/-- A state exists that is not a placeholder. -/
def IsPresent
    (states : Array State)
    (number : Nat) :
    Prop :=
  ∃ state, states[number]? = some state ∧ state.kind ≠ .invalid

/-- A state that is not invalid is one of the network's. -/
theorem isPresent_of_kind_ne
    {network : Network}
    {number : Nat}
    (valid : (network.state number).kind ≠ .invalid) :
    IsPresent network.states number := by
  cases isState : network.states[number]? with
  | none => simp [state, Array.getD_eq_getD_getElem?, isState, State.bare] at valid
  | some found =>
      simp only [state, Array.getD_eq_getD_getElem?, isState, Option.getD_some] at valid
      exact ⟨found, isState, valid⟩

end Network

/-- The mode that a lexer action goes to, if it names one. -/
def LexerAction.mode? : LexerAction → Option Nat
  | .mode number => some number
  | .pushMode number => some number
  | _ => none

namespace Network

/-- The references of a network lead where they should, and its marks are right. -/
structure Coherent (network : Network) : Prop where
  numbered :
    ∀ {number : Nat} {state : State},
      network.states[number]? = some state → state.number = number
  startKind :
    ∀ {rule : Nat},
      rule < network.ruleCount →
        (network.state (network.ruleStarts.getD rule 0)).kind = .ruleStart
  stopKind :
    ∀ {rule : Nat},
      rule < network.ruleCount →
        (network.state (network.ruleStops.getD rule 0)).kind = .ruleStop
  target :
    ∀ {number : Nat} {edge : Edge},
      edge ∈ (network.state number).edges → IsPresent network.states edge.target
  call :
    ∀ {number target rule follow : Nat} {precedence : Int},
      Edge.call target rule precedence follow ∈ (network.state number).edges →
        rule < network.ruleCount ∧ (network.state target).kind = .ruleStart ∧
          IsPresent network.states follow
  returns :
    ∀ {number target rule follow : Nat} {precedence : Int},
      Edge.call target rule precedence follow ∈ (network.state number).edges →
        ∃ edge ∈ (network.state (network.ruleStops.getD rule 0)).edges,
          edge.isEpsilon = true ∧ edge.target = follow
  epsilonOnly :
    ∀ number : Nat,
      (network.state number).epsilonOnly =
        (!(network.state number).edges.isEmpty &&
          (network.state number).edges.all Edge.isEpsilon)
  decision :
    ∀ {number decision : Nat},
      (network.state number).decision = some decision →
        network.decisions[decision]? = some number
  precedenceDecision :
    ∀ {number : Nat},
      (network.state number).precedenceDecision = true →
        decidesPrecedence network.states network.ruleStarts (network.state number) = true
  lexerMode :
    ∀ {action : LexerAction} {mode : Nat},
      action ∈ network.lexerActions → action.mode? = some mode → mode < network.modeStarts.size

namespace Decoder

/-- A reader can come to a value. -/
def Reads
    (decoder : Decoder α)
    (value : α) :
    Prop :=
  ∃ before after, decoder.run before = .ok (value, after)

theorem reads_bind
    {decoder : Decoder α}
    {next : α → Decoder β}
    {value : β}
    (reads : Reads (decoder >>= next) value) :
    ∃ middle, Reads decoder middle ∧ Reads (next middle) value := by
  obtain ⟨before, after, reads⟩ := reads
  rw [StateT.run_bind] at reads
  cases first : decoder.run before with
  | error fault => simp [first, bind, Except.bind] at reads
  | ok result =>
      simp only [first, bind, Except.bind] at reads
      exact ⟨result.1, ⟨before, result.2, first⟩, ⟨result.2, after, reads⟩⟩

theorem reads_pure
    {given value : α}
    (reads : Reads (pure given) value) :
    given = value := by
  obtain ⟨before, after, reads⟩ := reads
  cases reads
  rfl

theorem reads_lift
    {checked : Except DecodeError α}
    {value : α}
    (reads : Reads (liftM checked) value) :
    checked = .ok value := by
  obtain ⟨before, after, reads⟩ := reads
  cases checked with
  | error fault => cases reads
  | ok result =>
      cases reads
      rfl

theorem not_reads_malformed
    {fault : Malformation}
    {value : α} :
    ¬ Reads (malformed fault) value := by
  rintro ⟨before, after, reads⟩
  cases reads

theorem not_reads_throw
    {fault : DecodeError}
    {value : α} :
    ¬ Reads (throw fault) value := by
  rintro ⟨before, after, reads⟩
  cases reads

/-- What was read item by item was read as items with the numbers from the first on. -/
theorem reads_repeatFrom
    {item : Nat → Decoder α}
    {first length : Nat}
    {values : List α}
    (reads : Reads (repeatFrom item first length) values)
    {place : Nat}
    {value : α}
    (present : values[place]? = some value) :
    Reads (item (first + place)) value := by
  induction length generalizing first values place with
  | zero =>
      cases reads_pure reads
      cases present
  | succ length inductionHypothesis =>
      obtain ⟨head, readsHead, reads⟩ := reads_bind reads
      obtain ⟨tail, readsTail, reads⟩ := reads_bind reads
      cases reads_pure reads
      cases place with
      | zero =>
          cases present
          exact readsHead
      | succ place =>
          rw [Nat.add_succ, ← Nat.succ_add]
          exact inductionHypothesis readsTail present

/-- What was read with its count was read as items with the numbers from zero on. -/
theorem reads_counted
    {item : Nat → Decoder α}
    {values : List α}
    (reads : Reads (counted item) values)
    {place : Nat}
    {value : α}
    (present : values[place]? = some value) :
    Reads (item place) value := by
  obtain ⟨length, _, reads⟩ := reads_bind reads
  simpa using reads_repeatFrom reads present

end Decoder

/-! Reading goes through the states several times. Each time some fields are set and others are
kept; what is kept is told by a projection that leaves the others out. -/

/-- A change that a projection does not see leaves the projected states as they were. -/
theorem map_modify
    {projection : State → γ}
    {change : State → State}
    (unseen : ∀ state, projection (change state) = projection state)
    (states : Array State)
    (number : Nat) :
    (states.modify number change).map projection = states.map projection := by
  apply Array.ext_getElem?
  intro place
  simp only [Array.getElem?_map, Array.getElem?_modify]
  split
  · cases states[place]? <;> simp [unseen]
  · rfl

namespace State

/-- The state without its links to other ends of blocks and loops and without a greed mark. -/
def unlinked (state : State) : State :=
  { state with
    nonGreedy := false
    endState := none
    startState := none
    loopBackState := none }

/-- The unlinked state without the mark on rule starts. -/
def unmarked (state : State) : State :=
  { state.unlinked with leftRecursiveRule := false }

end State

/-- Linking loop ends changes links only. -/
theorem map_unlinked_linkLoopEnds
    {encoded : List EncodedState}
    {before after : Array State}
    (linked : linkLoopEnds encoded before = .ok after) :
    after.map State.unlinked = before.map State.unlinked := by
  refine foldlM_keeps (fun states => states.map State.unlinked = before.map State.unlinked)
    ?_ linked rfl
  intro entry _ states next same stepped
  split at stepped
  · split at stepped
    · obtain ⟨loopBack, _, stepped⟩ := ok_of_bind stepped
      cases stepped
      rw [← same]
      apply map_modify
      exact fun _ => rfl
    · cases stepped
      exact same
  · cases stepped
    exact same

/-- Linking block starts changes links only. -/
theorem map_unlinked_linkBlockStarts
    {encoded : List EncodedState}
    {before after : Array State}
    (linked : linkBlockStarts encoded before = .ok after) :
    after.map State.unlinked = before.map State.unlinked := by
  refine foldlM_keeps (fun states => states.map State.unlinked = before.map State.unlinked)
    ?_ linked rfl
  intro entry _ states next same stepped
  split at stepped
  · split at stepped
    · obtain ⟨blockEnd, _, stepped⟩ := ok_of_bind stepped
      cases stepped
      rw [← same]
      apply map_modify
      exact fun _ => rfl
    · cases stepped
      exact same
  · cases stepped
    exact same

/-- Linking the ends of blocks and loops changes links only. -/
theorem map_unlinked_linkStates
    {before after : Array State}
    (linked : linkStates before = .ok after) :
    after.map State.unlinked = before.map State.unlinked := by
  refine foldlM_keeps (fun states => states.map State.unlinked = before.map State.unlinked)
    ?_ linked rfl
  intro number _ states next same stepped
  have ends :
      ∀ {state : State} {after : Array State},
        linkBlockEnd states state = .ok after →
          after.map State.unlinked = states.map State.unlinked := by
    intro state after linked
    unfold linkBlockEnd at linked
    split at linked
    · split at linked
      · cases linked
      · dsimp only at linked
        split at linked
        · cases linked
        · cases linked
          apply map_modify
          exact fun _ => rfl
    · cases linked
      rfl
  have heads :
      ∀ (states : Array State) (state : State),
        (linkLoopHeads states state).map State.unlinked = states.map State.unlinked := by
    intro states state
    unfold linkLoopHeads
    split
    · rfl
    · refine foldl_keeps
        (fun after : Array State => after.map State.unlinked = states.map State.unlinked) ?_ rfl
      intro edge _ before same
      rw [map_modify ?_, same]
      intro target
      split <;> rfl
  obtain ⟨middle, linkedEnds, stepped⟩ := ok_of_bind stepped
  cases stepped
  rw [heads, ends linkedEnds, same]

/-- A state that was just read knows its number and has nothing else. -/
theorem state_of_decodeState
    {number : Nat}
    {entry : EncodedState}
    (reads : Decoder.Reads (decodeState number) entry) :
    ∃ kind rule, entry.state = State.bare number kind rule := by
  obtain ⟨code, _, reads⟩ := Decoder.reads_bind reads
  split at reads
  · cases Decoder.reads_pure reads
    exact ⟨_, _, rfl⟩
  · split at reads
    · exact absurd reads Decoder.not_reads_throw
    · obtain ⟨value, _, reads⟩ := Decoder.reads_bind reads
      dsimp only at reads
      split at reads
      · obtain ⟨link, _, reads⟩ := Decoder.reads_bind reads
        cases Decoder.reads_pure reads
        exact ⟨_, _, rfl⟩
      · cases Decoder.reads_pure reads
        exact ⟨_, _, rfl⟩

/-- The states that were read know their numbers and have nothing but links else. -/
theorem unlinked_of_decodeStates
    {states : Array State}
    (reads : Decoder.Reads decodeStates states)
    {number : Nat}
    {state : State}
    (present : states[number]? = some state) :
    ∃ kind rule, state.unlinked = State.bare number kind rule := by
  obtain ⟨encoded, readsEncoded, reads⟩ := Decoder.reads_bind reads
  obtain ⟨linked, readsLinked, reads⟩ := Decoder.reads_bind reads
  have sameFirst := map_unlinked_linkLoopEnds (Decoder.reads_lift readsLinked)
  have same := (map_unlinked_linkBlockStarts (Decoder.reads_lift reads)).trans sameFirst
  have presentBefore := congrArg (fun states => states[number]?) same
  simp only [Array.getElem?_map, present, Option.map_some, List.getElem?_toArray,
    List.getElem?_map] at presentBefore
  cases isEntry : encoded[number]? with
  | none => simp [isEntry] at presentBefore
  | some entry =>
      obtain ⟨kind, rule, isBare⟩ :=
        state_of_decodeState (Decoder.reads_counted readsEncoded isEntry)
      simp only [isEntry, Option.map_some, Option.some.injEq, isBare] at presentBefore
      exact ⟨kind, rule, presentBefore⟩

/-- A reference that was checked leads to a state that exists. -/
theorem isPresent_of_stateReference
    {states : Array State}
    {value : Int}
    {number : Nat}
    (checked : stateReference states value = .ok number) :
    IsPresent states number := by
  unfold stateReference at checked
  split at checked
  · split at checked
    · rename_i state present
      split at checked
      · cases checked
      · rename_i notInvalid
        cases checked
        exact ⟨state, present, notInvalid⟩
    · cases checked
  · cases checked

/-- A reference to a state of some kind that was checked leads to such a state. -/
theorem kind_of_stateReferenceOf
    {states : Array State}
    {expected : StateKind}
    {value : Int}
    {number : Nat}
    (checked : stateReferenceOf states expected value = .ok number) :
    ∃ state, states[number]? = some state ∧ state.kind = expected := by
  obtain ⟨found, referred, checked⟩ := ok_of_bind checked
  obtain ⟨_, required, checked⟩ := ok_of_bind checked
  cases checked
  obtain ⟨state, present, _⟩ := isPresent_of_stateReference referred
  refine ⟨state, present, ?_⟩
  unfold requireKind at required
  dsimp only at required
  split at required
  · rename_i isKind
    simpa [Array.getD_eq_getD_getElem?, present] using isKind
  · cases required

/-- Marks change what they mark only. -/
theorem map_of_decodeMarks
    {refer : Int → Except DecodeError Nat}
    {mark : State → State}
    {before after : Array State}
    {projection : State → γ}
    (unseen : ∀ state, projection (mark state) = projection state)
    (reads : Decoder.Reads (decodeMarks refer mark before) after) :
    after.map projection = before.map projection := by
  obtain ⟨marked, _, reads⟩ := Decoder.reads_bind reads
  cases Decoder.reads_pure reads
  refine foldl_keeps
    (fun states : Array State => states.map projection = before.map projection) ?_ rfl
  intro number _ states same
  rw [← same]
  exact map_modify unseen states number

/-- The start of a rule is a rule start. -/
theorem start_of_decodeRules
    {kind : GrammarKind}
    {states : Array State}
    {rules : List (Nat × Option Int)}
    (reads : Decoder.Reads (decodeRules kind states) rules)
    {rule : Nat}
    {entry : Nat × Option Int}
    (present : rules[rule]? = some entry) :
    ∃ state, states[entry.1]? = some state ∧ state.kind = .ruleStart := by
  have reads := Decoder.reads_counted reads present
  obtain ⟨value, _, reads⟩ := Decoder.reads_bind reads
  obtain ⟨start, checked, reads⟩ := Decoder.reads_bind reads
  have found := kind_of_stateReferenceOf (Decoder.reads_lift checked)
  split at reads
  · obtain ⟨type, _, reads⟩ := Decoder.reads_bind reads
    cases Decoder.reads_pure reads
    exact found
  · cases Decoder.reads_pure reads
    exact found

/-- Where every item gives a value, the values are in the places of their items. -/
theorem ok_of_mapM
    {give : α → Except ε β}
    {items : List α}
    {values : List β}
    (succeeds : items.mapM give = .ok values)
    {place : Nat}
    {item : α}
    (present : items[place]? = some item) :
    ∃ value, values[place]? = some value ∧ give item = .ok value := by
  induction items generalizing values place with
  | nil => cases present
  | cons head tail inductionHypothesis =>
      rw [List.mapM_cons] at succeeds
      obtain ⟨first, gives, succeeds⟩ := ok_of_bind succeeds
      obtain ⟨others, givesOthers, succeeds⟩ := ok_of_bind succeeds
      cases succeeds
      cases place with
      | zero =>
          cases present
          exact ⟨first, rfl, gives⟩
      | succ place => exact inductionHypothesis givesOthers present

/-- The stop that was found for a rule is the number of a stop state of the rule. -/
theorem stop_of_lastStopOf?
    {states : Array State}
    {rule stop : Nat}
    (found : lastStopOf? states rule = some stop) :
    ∃ state ∈ states, state.number = stop ∧ state.kind = .ruleStop ∧ state.rule = some rule := by
  have kept :
      ∀ {number : Nat},
        lastStopOf? states rule = some number →
          ∃ state ∈ states, state.number = number ∧ state.kind = .ruleStop ∧
            state.rule = some rule := by
    rw [lastStopOf?, ← Array.foldl_toList]
    refine foldl_keeps
      (fun last : Option Nat =>
        ∀ {number : Nat},
          last = some number →
            ∃ state ∈ states, state.number = number ∧ state.kind = .ruleStop ∧
              state.rule = some rule) ?_ (by simp)
    intro state member before holds number isLast
    split at isLast
    · rename_i isStop
      simp only [Bool.and_eq_true, decide_eq_true_eq, beq_iff_eq] at isStop
      cases isLast
      exact ⟨state, Array.mem_toList_iff.mp member, rfl, isStop⟩
    · exact holds isLast
  exact kept found

/-- The stops that were found are stop states of their rules. -/
theorem stop_of_findStops
    {states : Array State}
    {ruleCount : Nat}
    {stops : List Nat}
    (found : findStops states ruleCount = .ok stops)
    (numbered :
      ∀ {number : Nat} {state : State}, states[number]? = some state → state.number = number)
    {rule : Nat}
    (inBounds : rule < ruleCount) :
    ∃ stop state, stops[rule]? = some stop ∧ states[stop]? = some state ∧
      state.kind = .ruleStop ∧ state.rule = some rule := by
  obtain ⟨stop, isStop, gives⟩ :=
    @ok_of_mapM _ _ _ _ _ _ found rule rule (by simp [inBounds])
  cases isLast : lastStopOf? states rule with
  | none => simp [isLast] at gives
  | some last =>
      simp only [isLast, Except.ok.injEq] at gives
      subst gives
      obtain ⟨state, member, isNumber, isOfRule⟩ := stop_of_lastStopOf? isLast
      obtain ⟨number, present⟩ := Array.mem_iff_getElem?.mp member
      refine ⟨last, state, isStop, ?_, isOfRule⟩
      rw [← isNumber, numbered present, present]

namespace State

/-- The state without its edges. -/
def edgeless (state : State) : State :=
  { state with
    edges := []
    epsilonOnly := false }

/-- The mark for free edges only is right. -/
def IsExact (state : State) : Prop :=
  state.epsilonOnly = (!state.edges.isEmpty && state.edges.all Edge.isEpsilon)

/-- An edge is there, or another one that makes it useless. -/
def Offers
    (state : State)
    (edge : Edge) :
    Prop :=
  ∃ present ∈ state.edges, present = edge ∨ present.repeats edge = true

/-- An edge that another one repeats is as free as the other. -/
theorem isEpsilon_of_repeats
    {present edge : Edge}
    (repeats : present.repeats edge = true) :
    present.isEpsilon = edge.isEpsilon ∧ present.target = edge.target := by
  unfold Edge.repeats at repeats
  rw [Bool.and_eq_true, beq_iff_eq] at repeats
  obtain ⟨sameTarget, repeats⟩ := repeats
  refine ⟨?_, sameTarget⟩
  cases present <;> cases edge <;> simp_all [Edge.isEpsilon, Edge.label?]

/-- Adding an edge keeps the mark right. -/
theorem IsExact.addEdge
    {state : State}
    (exact_ : state.IsExact)
    (edge : Edge) :
    (state.addEdge edge).IsExact := by
  unfold IsExact at exact_ ⊢
  unfold State.addEdge
  cases edges : state.edges with
  | nil => simp
  | cons head tail =>
      rw [edges] at exact_
      simp only [List.isEmpty_cons, Bool.false_eq_true, ↓reduceIte, exact_, Bool.not_false,
        Bool.true_and]
      split
      · rename_i repeated
        obtain ⟨present, member, repeats⟩ := List.any_eq_true.mp repeated
        rw [← (isEpsilon_of_repeats repeats).1]
        cases epsilon : present.isEpsilon with
        | true => simp
        | false =>
            have notAll : (head :: tail).all Edge.isEpsilon = false := by
              rw [List.all_eq_false]
              exact ⟨present, member, by simp [epsilon]⟩
            simp [notAll]
      · simp [Bool.and_assoc]

/-- An added edge is offered. -/
theorem offers_addEdge
    (state : State)
    (edge : Edge) :
    (state.addEdge edge).Offers edge := by
  unfold Offers State.addEdge
  dsimp only
  split
  · rename_i repeated
    obtain ⟨present, member, repeats⟩ := List.any_eq_true.mp repeated
    exact ⟨present, member, .inr repeats⟩
  · exact ⟨edge, by simp, .inl rfl⟩

/-- What is offered stays offered when edges are added. -/
theorem Offers.addEdge
    {state : State}
    {edge : Edge}
    (offers : state.Offers edge)
    (other : Edge) :
    (state.addEdge other).Offers edge := by
  obtain ⟨present, member, same⟩ := offers
  refine ⟨present, ?_, same⟩
  unfold State.addEdge
  dsimp only
  split
  · exact member
  · exact List.mem_append_left _ member

/-- Only the added edge is new. -/
theorem mem_edges_addEdge
    {state : State}
    {edge added : Edge}
    (member : edge ∈ (state.addEdge added).edges) :
    edge ∈ state.edges ∨ edge = added := by
  unfold State.addEdge at member
  dsimp only at member
  split at member
  · exact .inl member
  · simpa using member

end State

/-- Adding edges changes edges only. -/
theorem map_edgeless_addEdges
    (states : Array State)
    (edges : List (Nat × Edge)) :
    (addEdges states edges).map State.edgeless = states.map State.edgeless := by
  refine foldl_keeps
    (fun after : Array State => after.map State.edgeless = states.map State.edgeless) ?_ rfl
  intro entry _ before same
  rw [← same]
  apply map_modify
  exact fun _ => rfl

/-- An edge of a state was there before or was added to it. -/
theorem mem_edges_addEdges
    {states : Array State}
    {edges : List (Nat × Edge)}
    {number : Nat}
    {state : State}
    (present : (addEdges states edges)[number]? = some state)
    {edge : Edge}
    (member : edge ∈ state.edges) :
    (∃ before, states[number]? = some before ∧ edge ∈ before.edges) ∨
      (number, edge) ∈ edges := by
  have kept :
      ∀ {number : Nat} {state : State} {edge : Edge},
        (addEdges states edges)[number]? = some state →
          edge ∈ state.edges →
            (∃ before, states[number]? = some before ∧ edge ∈ before.edges) ∨
              (number, edge) ∈ edges := by
    refine foldl_keeps
      (fun after : Array State =>
        ∀ {number : Nat} {state : State} {edge : Edge},
          after[number]? = some state →
            edge ∈ state.edges →
              (∃ before, states[number]? = some before ∧ edge ∈ before.edges) ∨
                (number, edge) ∈ edges) ?_ (fun present member => .inl ⟨_, present, member⟩)
    rintro ⟨source, added⟩ isAdded before holds number state edge present member
    rw [Array.getElem?_modify] at present
    split at present
    · rename_i isSource
      obtain ⟨old, wasPresent, rfl⟩ := Option.map_eq_some_iff.mp present
      rcases State.mem_edges_addEdge member with isOld | rfl
      · exact holds wasPresent isOld
      · exact .inr (isSource ▸ isAdded)
    · exact holds present member
  exact kept present member

/-- Adding edges keeps the marks for free edges right. -/
theorem isExact_addEdges
    {states : Array State}
    (exact_ : ∀ {number : Nat} {state : State}, states[number]? = some state → state.IsExact)
    {edges : List (Nat × Edge)}
    {number : Nat}
    {state : State}
    (present : (addEdges states edges)[number]? = some state) :
    state.IsExact := by
  have kept :
      ∀ {number : Nat} {state : State},
        (addEdges states edges)[number]? = some state → state.IsExact := by
    refine foldl_keeps
      (fun after : Array State =>
        ∀ {number : Nat} {state : State}, after[number]? = some state → state.IsExact)
      ?_ exact_
    rintro ⟨source, added⟩ _ before holds number state present
    rw [Array.getElem?_modify] at present
    split at present
    · obtain ⟨old, wasPresent, rfl⟩ := Option.map_eq_some_iff.mp present
      exact (holds wasPresent).addEdge added
    · exact holds present
  exact kept present

/-- What a state offers it still offers when edges are added. -/
theorem offers_addEdges_of_offers
    {states : Array State}
    {number : Nat}
    {edge : Edge}
    (offers : ∃ state, states[number]? = some state ∧ state.Offers edge)
    (edges : List (Nat × Edge)) :
    ∃ state, (addEdges states edges)[number]? = some state ∧ state.Offers edge := by
  refine foldl_keeps
    (fun after : Array State => ∃ state, after[number]? = some state ∧ state.Offers edge)
    ?_ offers
  rintro ⟨source, added⟩ _ before ⟨state, present, offers⟩
  rw [Array.getElem?_modify, present]
  split
  · exact ⟨_, rfl, offers.addEdge added⟩
  · exact ⟨_, rfl, offers⟩

/-- Every edge that is added is offered by its state. -/
theorem offers_addEdges
    {states : Array State}
    {number : Nat}
    {edge : Edge}
    (inBounds : number < states.size)
    {edges : List (Nat × Edge)}
    (isAdded : (number, edge) ∈ edges) :
    ∃ state, (addEdges states edges)[number]? = some state ∧ state.Offers edge := by
  induction edges generalizing states with
  | nil => cases isAdded
  | cons head tail inductionHypothesis =>
      rcases List.mem_cons.mp isAdded with rfl | isLater
      · refine offers_addEdges_of_offers ⟨states[number].addEdge edge, ?_, ?_⟩ tail
        · rw [Array.getElem?_modify]
          simp [inBounds]
        · exact State.offers_addEdge _ edge
      · refine @inductionHypothesis (states.modify head.1 fun state => state.addEdge head.2) ?_
          isLater
        simpa using inBounds

/-- An edge that was read refers to states and rules that exist. -/
structure IsSound
    (states : Array State)
    (ruleCount : Nat)
    (edge : Edge) :
    Prop where
  target : IsPresent states edge.target
  call :
    ∀ {target rule follow : Nat} {precedence : Int},
      edge = .call target rule precedence follow →
        rule < ruleCount ∧
          (∃ state, states[target]? = some state ∧ state.kind = .ruleStart) ∧
          IsPresent states follow
  predicate :
    ∀ {target rule : Nat} {index : Int} {contextDependent : Bool},
      edge = .predicate target rule index contextDependent → rule < ruleCount

/-- A reference to a rule that was checked leads to a rule that exists. -/
theorem lt_of_ruleReference
    {ruleCount rule : Nat}
    {value : Int}
    (checked : ruleReference ruleCount value = .ok rule) :
    rule < ruleCount := by
  unfold ruleReference at checked
  split at checked
  · rename_i inBounds
    cases checked
    simpa using (Option.filter_eq_some_iff.mp inBounds).2
  · cases checked

/-- What an edge is built from is checked. -/
theorem isSound_of_edgeOf
    {tables : EdgeTables}
    {type first second third : Int}
    {target : Nat}
    {edge : Edge}
    (isPresent : IsPresent tables.states target)
    (built : edgeOf tables type target first second third = .ok edge) :
    IsSound tables.states tables.ruleCount edge := by
  unfold edgeOf at built
  split at built
  · cases built
    exact ⟨isPresent, by simp, by simp⟩
  · cases built
    exact ⟨isPresent, by simp, by simp⟩
  · obtain ⟨start, isStart, built⟩ := ok_of_bind built
    obtain ⟨rule, isRule, built⟩ := ok_of_bind built
    cases built
    obtain ⟨state, present, kind⟩ := kind_of_stateReferenceOf isStart
    refine ⟨⟨state, present, by simp [kind]⟩, ?_, by simp⟩
    intro target' rule' follow precedence same
    cases same
    exact ⟨lt_of_ruleReference isRule, ⟨state, present, kind⟩, isPresent⟩
  · obtain ⟨rule, isRule, built⟩ := ok_of_bind built
    cases built
    refine ⟨isPresent, by simp, ?_⟩
    intro target' rule' index contextDependent same
    cases same
    exact lt_of_ruleReference isRule
  · cases built
    exact ⟨isPresent, by simp, by simp⟩
  · cases built
    exact ⟨isPresent, by simp, by simp⟩
  · obtain ⟨symbols, _, built⟩ := ok_of_bind built
    cases built
    exact ⟨isPresent, by simp, by simp⟩
  · obtain ⟨symbols, _, built⟩ := ok_of_bind built
    cases built
    exact ⟨isPresent, by simp, by simp⟩
  · cases built
    exact ⟨isPresent, by simp, by simp⟩
  · cases built
    exact ⟨isPresent, by simp, by simp⟩
  · cases built

/-- An edge that was read is sound. -/
theorem isSound_of_decodeEdge
    {tables : EdgeTables}
    {entry : Nat × Edge}
    (reads : Decoder.Reads (decodeEdge tables) entry) :
    IsSound tables.states tables.ruleCount entry.2 := by
  obtain ⟨_, _, reads⟩ := Decoder.reads_bind reads
  obtain ⟨source, _, reads⟩ := Decoder.reads_bind reads
  obtain ⟨_, _, reads⟩ := Decoder.reads_bind reads
  obtain ⟨target, isTarget, reads⟩ := Decoder.reads_bind reads
  obtain ⟨_, _, reads⟩ := Decoder.reads_bind reads
  obtain ⟨_, _, reads⟩ := Decoder.reads_bind reads
  obtain ⟨_, _, reads⟩ := Decoder.reads_bind reads
  obtain ⟨_, _, reads⟩ := Decoder.reads_bind reads
  obtain ⟨edge, built, reads⟩ := Decoder.reads_bind reads
  cases Decoder.reads_pure reads
  exact isSound_of_edgeOf (isPresent_of_stateReference (Decoder.reads_lift isTarget))
    (Decoder.reads_lift built)

/-- The mode of a lexer action that was read exists. -/
theorem mode_lt_of_decodeLexerAction
    {modeCount mode : Nat}
    {action : LexerAction}
    (reads : Decoder.Reads (decodeLexerAction modeCount) action)
    (isMode : action.mode? = some mode) :
    mode < modeCount := by
  have inBounds :
      ∀ {value : Int}, modeReference modeCount value = .ok mode → mode < modeCount := by
    intro value isReference
    unfold modeReference at isReference
    split at isReference
    · rename_i inBounds
      cases isReference
      simpa using (Option.filter_eq_some_iff.mp inBounds).2
    · cases isReference
  obtain ⟨type, _, reads⟩ := Decoder.reads_bind reads
  obtain ⟨first, _, reads⟩ := Decoder.reads_bind reads
  obtain ⟨second, _, reads⟩ := Decoder.reads_bind reads
  split at reads
  case h_3 =>
    obtain ⟨found, isFound, reads⟩ := Decoder.reads_bind reads
    cases Decoder.reads_pure reads
    cases isMode
    exact inBounds (Decoder.reads_lift isFound)
  case h_6 =>
    obtain ⟨found, isFound, reads⟩ := Decoder.reads_bind reads
    cases Decoder.reads_pure reads
    cases isMode
    exact inBounds (Decoder.reads_lift isFound)
  case h_9 => exact absurd reads Decoder.not_reads_throw
  all_goals
    cases Decoder.reads_pure reads
    cases isMode

/-- The edges by which rules return are those that calls ask for. -/
theorem mem_returnEdges_iff
    {states : Array State}
    {starts stops : Array Nat}
    {entry : Nat × Edge} :
    entry ∈ returnEdges states starts stops ↔
      ∃ state ∈ states, ∃ target rule precedence follow,
        Edge.call target rule precedence follow ∈ state.edges ∧
          entry =
            (stops.getD rule 0,
              .epsilon follow
                (if (states.getD (starts.getD rule 0)
                      (State.bare (starts.getD rule 0) .invalid none)).leftRecursiveRule &&
                    precedence == 0 then
                  some rule
                else
                  none)) := by
  simp only [returnEdges, List.mem_flatMap, Array.mem_toList_iff, List.mem_filterMap]
  constructor
  · rintro ⟨state, member, edge, isEdge, gives⟩
    cases edge <;> simp only [reduceCtorEq, Option.some.injEq] at gives
    exact ⟨state, member, _, _, _, _, isEdge, gives.symm⟩
  · rintro ⟨state, member, target, rule, precedence, follow, isEdge, rfl⟩
    exact ⟨state, member, _, isEdge, rfl⟩

/-- A state that was told the number of its decision is the state of that decision. -/
theorem decision_of_numberDecisions
    {states : Array State}
    {decisions : List Nat}
    (undecided :
      ∀ {number : Nat} {state : State}, states[number]? = some state → state.decision = none)
    {number decision : Nat}
    {state : State}
    (present : (numberDecisions states decisions)[number]? = some state)
    (isDecision : state.decision = some decision) :
    decisions[decision]? = some number := by
  have kept :
      ∀ {number decision : Nat} {state : State},
        (numberDecisions states decisions)[number]? = some state →
          state.decision = some decision →
            decisions[decision]? = some number := by
    refine foldl_keeps
      (fun after : Array State =>
        ∀ {number decision : Nat} {state : State},
          after[number]? = some state →
            state.decision = some decision →
              decisions[decision]? = some number) ?_ ?_
    · rintro ⟨decided, place⟩ member before holds number decision state present isDecision
      rw [Array.getElem?_modify] at present
      split at present
      · rename_i isDecided
        obtain ⟨old, _, rfl⟩ := Option.map_eq_some_iff.mp present
        cases isDecision
        have isThere := List.mem_zipIdx_iff_getElem?.mp member
        simpa [isDecided] using isThere
      · exact holds present isDecision
    · intro number decision state present isDecision
      rw [undecided present] at isDecision
      cases isDecision
  exact kept present isDecision

/-- Numbering decisions changes nothing else. -/
theorem map_numberDecisions
    {projection : State → γ}
    (unseen :
      ∀ (state : State) (decision : Option Nat),
        projection { state with decision := decision } = projection state)
    (states : Array State)
    (decisions : List Nat) :
    (numberDecisions states decisions).map projection = states.map projection := by
  refine foldl_keeps
    (fun after : Array State => after.map projection = states.map projection) ?_ rfl
  rintro ⟨number, decision⟩ _ before same
  rw [← same]
  exact map_modify (fun state => unseen state _) before number

/-- States that look the same under a projection stand in the same places. -/
theorem exists_of_map_eq
    {projection : State → γ}
    {before after : Array State}
    (same : after.map projection = before.map projection)
    {number : Nat}
    {state : State}
    (present : after[number]? = some state) :
    ∃ old, before[number]? = some old ∧ projection state = projection old := by
  have places := congrArg (fun projected => projected[number]?) same
  simp only [Array.getElem?_map, present, Option.map_some] at places
  obtain ⟨old, wasPresent, isSame⟩ := Option.map_eq_some_iff.mp places.symm
  exact ⟨old, wasPresent, isSame.symm⟩

/-- The state with a number, or an invalid one, as in a network. -/
theorem state_eq_of_getElem?
    {network : Network}
    {number : Nat}
    {state : State}
    (present : network.states[number]? = some state) :
    network.state number = state := by
  simp [Network.state, Array.getD_eq_getD_getElem?, present]

/-- A state with edges is one of the network. -/
theorem getElem?_of_mem_edges
    {network : Network}
    {number : Nat}
    {edge : Edge}
    (member : edge ∈ (network.state number).edges) :
    network.states[number]? = some (network.state number) := by
  cases present : network.states[number]? with
  | some state => rw [state_eq_of_getElem? present]
  | none => simp [Network.state, Array.getD_eq_getD_getElem?, present, State.bare] at member

namespace State

/-- The state as it is once its edges were added. -/
def skeleton (state : State) : State :=
  { state.unlinked with
    decision := none
    precedenceDecision := false }

/-- States with the same skeleton have the same edges. -/
theorem eq_of_skeleton_eq
    {first second : State}
    (same : first.skeleton = second.skeleton) :
    first.number = second.number ∧ first.kind = second.kind ∧
      first.edges = second.edges ∧ first.epsilonOnly = second.epsilonOnly := by
  simp only [skeleton, unlinked, State.mk.injEq] at same
  simp [same]

/-- States that are the same without edges are of the same kind. -/
theorem eq_of_edgeless_eq
    {first second : State}
    (same : first.edgeless = second.edgeless) :
    first.number = second.number ∧ first.kind = second.kind ∧
      first.decision = second.decision ∧
      first.precedenceDecision = second.precedenceDecision := by
  simp only [edgeless, State.mk.injEq] at same
  simp [same]

/-- States that are the same without links have the same decision. -/
theorem eq_of_unlinked_eq
    {first second : State}
    (same : first.unlinked = second.unlinked) :
    first.decision = second.decision ∧
      first.precedenceDecision = second.precedenceDecision := by
  simp only [unlinked, State.mk.injEq] at same
  simp [same]

end State

/-- The parts of a network as they were read, each from what had been read before it. -/
structure Readings where
  kind : GrammarKind
  maxTokenType : Int
  first : Array State
  greedy : Array State
  bare : Array State
  rules : List (Nat × Option Int)
  stops : List Nat
  modes : List Nat
  sets : List IntervalSet
  edges : List (Nat × Edge)
  linked : Array State
  decisions : List Nat
  actions : List LexerAction
  readsFirst : Decoder.Reads decodeStates first
  readsGreedy :
    Decoder.Reads (decodeMarks (stateReference first) ({ · with nonGreedy := true }) first) greedy
  readsBare :
    Decoder.Reads
      (decodeMarks (stateReferenceOf greedy .ruleStart) ({ · with leftRecursiveRule := true })
        greedy)
      bare
  readsRules : Decoder.Reads (decodeRules kind bare) rules
  foundStops : findStops bare rules.length = .ok stops
  readsModes : Decoder.Reads (decodeModes bare) modes
  readsEdges :
    Decoder.Reads (Decoder.counted fun _ => decodeEdge ⟨bare, sets.toArray, rules.length⟩) edges
  links :
    linkStates
      (addEdges (addEdges bare edges)
        (returnEdges (addEdges bare edges) (rules.map Prod.fst).toArray stops.toArray)) =
      .ok linked
  readsDecisions : Decoder.Reads (decodeDecisions linked) decisions
  readsAction :
    ∀ {action : LexerAction},
      action ∈ actions → Decoder.Reads (decodeLexerAction modes.length) action

/-- The network that is made of the parts. -/
def Readings.network (readings : Readings) : Network where
  kind := readings.kind
  maxTokenType := readings.maxTokenType
  states :=
    markPrecedenceDecisions (numberDecisions readings.linked readings.decisions)
      (readings.rules.map Prod.fst).toArray
  ruleStarts := (readings.rules.map Prod.fst).toArray
  ruleStops := readings.stops.toArray
  ruleTokenTypes := (readings.rules.filterMap Prod.snd).toArray
  modeStarts := readings.modes.toArray
  decisions := readings.decisions.toArray
  lexerActions := readings.actions.toArray

/-- A network that was read was read part by part, its symbol sets among them. -/
theorem readings_of_decode_with_sets
    {data : List Int}
    {network : Network}
    (decoded : decode data = .ok network) :
    ∃ readings : Readings,
      readings.network = network ∧
        Decoder.Reads (Decoder.counted fun _ => decodeSet) readings.sets := by
  have reads : Decoder.Reads decoder network := by
    unfold decode at decoded
    cases run : decoder.run ⟨data, 0⟩ with
    | error fault => simp [run, Except.map] at decoded
    | ok result =>
        simp only [run, Except.map, Except.ok.injEq] at decoded
        exact ⟨_, result.2, by rw [run, ← decoded]⟩
  obtain ⟨kind, _, reads⟩ := Decoder.reads_bind reads
  obtain ⟨maxTokenType, _, reads⟩ := Decoder.reads_bind reads
  obtain ⟨first, readsFirst, reads⟩ := Decoder.reads_bind reads
  obtain ⟨greedy, readsGreedy, reads⟩ := Decoder.reads_bind reads
  obtain ⟨bare, readsBare, reads⟩ := Decoder.reads_bind reads
  obtain ⟨rules, readsRules, reads⟩ := Decoder.reads_bind reads
  obtain ⟨stops, readsStops, reads⟩ := Decoder.reads_bind reads
  obtain ⟨modes, readsModes, reads⟩ := Decoder.reads_bind reads
  obtain ⟨sets, readsSets, reads⟩ := Decoder.reads_bind reads
  obtain ⟨edges, readsEdges, reads⟩ := Decoder.reads_bind reads
  obtain ⟨linked, readsLinked, reads⟩ := Decoder.reads_bind reads
  obtain ⟨decisions, readsDecisions, reads⟩ := Decoder.reads_bind reads
  have readings :
      ∀ actions : List LexerAction,
        (∀ {action : LexerAction},
          action ∈ actions → Decoder.Reads (decodeLexerAction modes.length) action) →
          ∃ readings : Readings,
            (readings.network =
              { kind := kind
                maxTokenType := maxTokenType
                states :=
                  markPrecedenceDecisions (numberDecisions linked decisions)
                    (rules.map Prod.fst).toArray
                ruleStarts := (rules.map Prod.fst).toArray
                ruleStops := stops.toArray
                ruleTokenTypes := (rules.filterMap Prod.snd).toArray
                modeStarts := modes.toArray
                decisions := decisions.toArray
                lexerActions := actions.toArray }) ∧
              Decoder.Reads (Decoder.counted fun _ => decodeSet) readings.sets := by
    intro actions readsAction
    refine ⟨⟨kind, maxTokenType, first, greedy, bare, rules, stops, modes, sets, edges, linked,
      decisions, actions, readsFirst, readsGreedy, readsBare, readsRules, ?_, readsModes,
      readsEdges, ?_, readsDecisions, readsAction⟩, rfl, readsSets⟩
    · exact Decoder.reads_lift readsStops
    · exact Decoder.reads_lift readsLinked
  dsimp only at reads
  cases kind with
  | lexer =>
      obtain ⟨actions, readsActions, reads⟩ := Decoder.reads_bind reads
      rw [← Decoder.reads_pure reads]
      refine readings actions fun {action} member => ?_
      obtain ⟨place, present⟩ := List.mem_iff_getElem?.mp member
      exact Decoder.reads_counted readsActions present
  | parser =>
      obtain ⟨actions, isNone, reads⟩ := Decoder.reads_bind reads
      cases Decoder.reads_pure isNone
      rw [← Decoder.reads_pure reads]
      exact readings [] fun member => nomatch member

/-- A network that was read was read part by part. -/
theorem readings_of_decode
    {data : List Int}
    {network : Network}
    (decoded : decode data = .ok network) :
    ∃ readings : Readings, readings.network = network := by
  obtain ⟨readings, isNetwork, _⟩ := readings_of_decode_with_sets decoded
  exact ⟨readings, isNetwork⟩

/--
The stages of a network that is read: its states as they are first read and marked, its references,
and what is derived from them.
-/
structure Stages (network : Network) where
  bare : Array State
  edges : List (Nat × Edge)
  linked : Array State
  bare_unmarked :
    ∀ {number : Nat} {state : State},
      bare[number]? = some state →
        ∃ kind rule, state.unmarked = State.bare number kind rule
  starts :
    ∀ {rule : Nat},
      rule < network.ruleCount →
        ∃ state, bare[network.ruleStarts.getD rule 0]? = some state ∧ state.kind = .ruleStart
  stops :
    ∀ {rule : Nat},
      rule < network.ruleCount →
        ∃ state, bare[network.ruleStops.getD rule 0]? = some state ∧ state.kind = .ruleStop
  sound : ∀ {entry : Nat × Edge}, entry ∈ edges → IsSound bare network.ruleCount entry.2
  linked_unlinked :
    linked.map State.unlinked =
      (addEdges (addEdges bare edges)
        (returnEdges (addEdges bare edges) network.ruleStarts network.ruleStops)).map
          State.unlinked
  states_eq :
    network.states =
      markPrecedenceDecisions (numberDecisions linked network.decisions.toList)
        network.ruleStarts
  lexerMode :
    ∀ {action : LexerAction} {mode : Nat},
      action ∈ network.lexerActions → action.mode? = some mode → mode < network.modeStarts.size

namespace Readings

variable (readings : Readings)

/-- Marks on greed and on recursion leave the rest of the states as it was first read. -/
theorem map_unmarked :
    readings.bare.map State.unmarked = readings.first.map State.unmarked := by
  refine (map_of_decodeMarks ?_ readings.readsBare).trans
    (map_of_decodeMarks ?_ readings.readsGreedy)
  · exact fun _ => rfl
  · exact fun _ => rfl

/-- The states know their numbers, and have nothing but links and marks else. -/
theorem bare_unmarked
    {number : Nat}
    {state : State}
    (present : readings.bare[number]? = some state) :
    ∃ kind rule, state.unmarked = State.bare number kind rule := by
  obtain ⟨old, wasPresent, same⟩ := exists_of_map_eq readings.map_unmarked present
  obtain ⟨kind, rule, isBare⟩ := unlinked_of_decodeStates readings.readsFirst wasPresent
  refine ⟨kind, rule, same.trans ?_⟩
  rw [State.unmarked, isBare]
  rfl

/-- A rule has a stop that is a stop state of the rule. -/
theorem stop
    {rule : Nat}
    (inBounds : rule < readings.rules.length) :
    ∃ stop state, readings.stops[rule]? = some stop ∧ readings.bare[stop]? = some state ∧
      state.kind = .ruleStop ∧ state.rule = some rule := by
  refine stop_of_findStops readings.foundStops (fun present => ?_) inBounds
  obtain ⟨kind, rule, isBare⟩ := readings.bare_unmarked present
  exact congrArg State.number isBare

/-- The stages that the parts go through. -/
def stages : Stages readings.network where
  bare := readings.bare
  edges := readings.edges
  linked := readings.linked
  bare_unmarked := readings.bare_unmarked
  starts := by
    intro rule inBounds
    have inRules : rule < readings.rules.length := by
      simpa [ruleCount, network] using inBounds
    obtain ⟨state, present, kind⟩ :=
      start_of_decodeRules readings.readsRules (List.getElem?_eq_getElem inRules)
    refine ⟨state, ?_, kind⟩
    simpa [network, Array.getD_eq_getD_getElem?, inRules] using present
  stops := by
    intro rule inBounds
    have inRules : rule < readings.rules.length := by
      simpa [ruleCount, network] using inBounds
    obtain ⟨stop, state, isStop, present, kind, _⟩ := readings.stop inRules
    refine ⟨state, ?_, kind⟩
    simpa [network, Array.getD_eq_getD_getElem?, isStop] using present
  sound := by
    intro entry member
    obtain ⟨place, present⟩ := List.mem_iff_getElem?.mp member
    have sound := isSound_of_decodeEdge (Decoder.reads_counted readings.readsEdges present)
    simpa [ruleCount, network] using sound
  linked_unlinked := map_unlinked_linkStates readings.links
  states_eq := rfl
  lexerMode := by
    intro action mode member isMode
    have inBounds :=
      mode_lt_of_decodeLexerAction (readings.readsAction (List.mem_toArray.mp member)) isMode
    simpa [network] using inBounds

end Readings

/-- A network that was read went through the stages. -/
theorem stages_of_decode
    {data : List Int}
    {network : Network}
    (decoded : decode data = .ok network) :
    Nonempty (Stages network) := by
  obtain ⟨readings, rfl⟩ := readings_of_decode decoded
  exact ⟨readings.stages⟩

namespace Stages

variable {network : Network} (stages : Stages network)

/-- The states once the edges that were read were added. -/
def joined : Array State :=
  addEdges stages.bare stages.edges

/-- The states once all edges were added. -/
def complete : Array State :=
  addEdges stages.joined (returnEdges stages.joined network.ruleStarts network.ruleStops)

/-- The states once decisions were numbered. -/
def numbered : Array State :=
  numberDecisions stages.linked network.decisions.toList

/-- Numbering decisions and linking leave numbers, kinds, rules and edges alone. -/
theorem map_skeleton_numbered :
    stages.numbered.map State.skeleton = stages.complete.map State.skeleton := by
  have linked :
      stages.linked.map State.skeleton = stages.complete.map State.skeleton := by
    have same :=
      congrArg (Array.map fun state =>
        { state with decision := none, precedenceDecision := false : State })
        stages.linked_unlinked
    rw [Array.map_map, Array.map_map] at same
    exact same
  exact (map_numberDecisions (fun _ _ => rfl) _ _).trans linked

/-- What follows the edges leaves numbers, kinds, rules and edges alone. -/
theorem map_skeleton :
    network.states.map State.skeleton = stages.complete.map State.skeleton := by
  rw [← stages.map_skeleton_numbered, stages.states_eq, markPrecedenceDecisions,
    Array.map_map]
  apply Array.map_congr_left
  intro state _
  simp only [Function.comp_apply]
  split <;> rfl

/-- Adding edges leaves everything but edges alone. -/
theorem map_edgeless :
    stages.complete.map State.edgeless = stages.bare.map State.edgeless :=
  (map_edgeless_addEdges _ _).trans (map_edgeless_addEdges _ _)

/-- A state that was read is a state of the network. -/
theorem exists_of_bare
    {number : Nat}
    {bare : State}
    (isBare : stages.bare[number]? = some bare) :
    ∃ state, network.states[number]? = some state ∧ state.kind = bare.kind := by
  obtain ⟨complete, isComplete, same⟩ := exists_of_map_eq stages.map_edgeless.symm isBare
  obtain ⟨state, present, same'⟩ := exists_of_map_eq stages.map_skeleton.symm isComplete
  exact ⟨state, present,
    ((State.eq_of_edgeless_eq same).2.1.trans (State.eq_of_skeleton_eq same').2.1).symm⟩

/-- A state that exists when it is referred to exists in the network. -/
theorem isPresent
    {number : Nat}
    (isPresent : IsPresent stages.bare number) :
    IsPresent network.states number := by
  obtain ⟨bare, isBare, notInvalid⟩ := isPresent
  obtain ⟨state, present, kind⟩ := stages.exists_of_bare isBare
  exact ⟨state, present, by rwa [kind]⟩

/-- The edges of a state of the network are those of the state once all edges were added. -/
theorem exists_complete
    {number : Nat}
    {state : State}
    (present : network.states[number]? = some state) :
    ∃ complete, stages.complete[number]? = some complete ∧
      state.edges = complete.edges ∧ state.epsilonOnly = complete.epsilonOnly := by
  obtain ⟨complete, isComplete, same⟩ := exists_of_map_eq stages.map_skeleton present
  exact ⟨complete, isComplete, (State.eq_of_skeleton_eq same).2.2⟩

/-- A state has no edges when it is first read. -/
theorem edges_bare
    {number : Nat}
    {bare : State}
    (isBare : stages.bare[number]? = some bare) :
    bare.edges = [] := by
  obtain ⟨kind, rule, same⟩ := stages.bare_unmarked isBare
  exact congrArg State.edges same

/-- Before decisions are numbered a state has none, and no mark on precedence. -/
theorem unmarked_linked
    {number : Nat}
    {state : State}
    (isLinked : stages.linked[number]? = some state) :
    state.decision = none ∧ state.precedenceDecision = false := by
  obtain ⟨complete, isComplete, same⟩ := exists_of_map_eq stages.linked_unlinked isLinked
  obtain ⟨bare, isBare, same'⟩ := exists_of_map_eq stages.map_edgeless isComplete
  obtain ⟨kind, rule, isFirst⟩ := stages.bare_unmarked isBare
  have sameMarks := State.eq_of_unlinked_eq same
  have sameMarks' := State.eq_of_edgeless_eq same'
  exact ⟨sameMarks.1.trans (sameMarks'.2.2.1.trans (congrArg State.decision isFirst)),
    sameMarks.2.trans (sameMarks'.2.2.2.trans (congrArg State.precedenceDecision isFirst))⟩

/-- An edge of the network was read or returns from a call that was read. -/
theorem edge_cases
    {number : Nat}
    {edge : Edge}
    (member : edge ∈ (network.state number).edges) :
    (number, edge) ∈ stages.edges ∨
      ∃ state ∈ stages.joined, ∃ target rule precedence follow outermost,
        Edge.call target rule precedence follow ∈ state.edges ∧
          edge = .epsilon follow outermost := by
  obtain ⟨complete, isComplete, sameEdges, _⟩ :=
    stages.exists_complete (getElem?_of_mem_edges member)
  rw [sameEdges] at member
  rcases mem_edges_addEdges isComplete member with ⟨joined, isJoined, member⟩ | isReturn
  · rcases mem_edges_addEdges isJoined member with ⟨bare, isBare, member⟩ | isRead
    · rw [stages.edges_bare isBare] at member
      cases member
    · exact .inl isRead
  · obtain ⟨state, isState, target, rule, precedence, follow, isCall, same⟩ :=
      mem_returnEdges_iff.mp isReturn
    exact .inr ⟨state, isState, target, rule, precedence, follow, _, isCall,
      congrArg Prod.snd same⟩

/-- A call that was read is sound. -/
theorem isSound_of_joined
    {state : State}
    (isState : state ∈ stages.joined)
    {edge : Edge}
    (member : edge ∈ state.edges) :
    IsSound stages.bare network.ruleCount edge := by
  obtain ⟨number, isJoined⟩ := Array.mem_iff_getElem?.mp isState
  rcases mem_edges_addEdges isJoined member with ⟨bare, isBare, member⟩ | isRead
  · rw [stages.edges_bare isBare] at member
    cases member
  · exact stages.sound isRead

/-- Every edge of the network is sound. -/
theorem isSound
    {number : Nat}
    {edge : Edge}
    (member : edge ∈ (network.state number).edges) :
    IsSound stages.bare network.ruleCount edge := by
  rcases stages.edge_cases member with
    isRead | ⟨state, isState, target, rule, precedence, follow, outermost, isCall, rfl⟩
  · exact stages.sound isRead
  · have soundCall := stages.isSound_of_joined isState isCall
    exact ⟨(soundCall.call rfl).2.2, by simp, by simp⟩

end Stages

/-- Whether a state decides on precedence shows in the skeletons. -/
theorem decidesPrecedence_skeleton
    (states : Array State)
    (ruleStarts : Array Nat)
    (state : State) :
    decidesPrecedence (states.map State.skeleton) ruleStarts state.skeleton =
      decidesPrecedence states ruleStarts state := by
  have stateAt :
      ∀ number : Nat,
        (states.map State.skeleton).getD number (State.bare number .invalid none) =
          (states.getD number (State.bare number .invalid none)).skeleton := by
    intro number
    rw [Array.getD_eq_getD_getElem?, Array.getD_eq_getD_getElem?, Array.getElem?_map]
    cases states[number]? <;> rfl
  simp only [decidesPrecedence, stateAt]
  rfl

namespace Stages

variable {network : Network} (stages : Stages network)

include stages

/-- The numbers of states are their places. -/
theorem hasNumbers
    {number : Nat}
    {state : State}
    (present : network.states[number]? = some state) :
    state.number = number := by
  obtain ⟨complete, isComplete, same⟩ := exists_of_map_eq stages.map_skeleton present
  obtain ⟨bare, isBare, same'⟩ := exists_of_map_eq stages.map_edgeless isComplete
  obtain ⟨kind, rule, isFirst⟩ := stages.bare_unmarked isBare
  exact (State.eq_of_skeleton_eq same).1.trans
    ((State.eq_of_edgeless_eq same').1.trans (congrArg State.number isFirst))

/-- The rule of a call returns to where the call goes on. -/
theorem returns
    {number target rule follow : Nat}
    {precedence : Int}
    (member : Edge.call target rule precedence follow ∈ (network.state number).edges) :
    ∃ edge ∈ (network.state (network.ruleStops.getD rule 0)).edges,
      edge.isEpsilon = true ∧ edge.target = follow := by
  have inBounds := ((stages.isSound member).call rfl).1
  obtain ⟨complete, isComplete, sameEdges, _⟩ :=
    stages.exists_complete (getElem?_of_mem_edges member)
  rw [sameEdges] at member
  -- The edges that return are free, so the call was read.
  obtain ⟨joined, isJoined, isCall⟩ :
      ∃ joined, stages.joined[number]? = some joined ∧
        Edge.call target rule precedence follow ∈ joined.edges := by
    rcases mem_edges_addEdges isComplete member with isOld | isReturn
    · exact isOld
    · obtain ⟨_, _, _, _, _, _, _, same⟩ := mem_returnEdges_iff.mp isReturn
      cases congrArg Prod.snd same
  obtain ⟨outermost, returns⟩ :
      ∃ outermost,
        (network.ruleStops.getD rule 0, Edge.epsilon follow outermost) ∈
          returnEdges stages.joined network.ruleStarts network.ruleStops :=
    ⟨_, mem_returnEdges_iff.mpr
      ⟨joined, Array.mem_of_getElem? isJoined, target, rule, precedence, follow, isCall,
        rfl⟩⟩
  obtain ⟨bare, isBare, _⟩ := stages.stops inBounds
  have stopInBounds :
      network.ruleStops.getD rule 0 < stages.joined.size := by
    have same := congrArg Array.size (map_edgeless_addEdges stages.bare stages.edges)
    simp only [Array.size_map] at same
    rw [Stages.joined, same]
    exact (Array.getElem?_eq_some_iff.mp isBare).1
  obtain ⟨stop, isStop, present, isEdge, offered⟩ := offers_addEdges stopInBounds returns
  obtain ⟨state, isState, same⟩ := exists_of_map_eq stages.map_skeleton.symm isStop
  refine ⟨present, ?_, ?_⟩
  · rw [state_eq_of_getElem? isState, ← (State.eq_of_skeleton_eq same).2.2.1]
    exact isEdge
  · rcases offered with rfl | repeats
    · exact ⟨rfl, rfl⟩
    · exact State.isEpsilon_of_repeats repeats

/-- States are marked as free exactly where they have edges and all of them are free. -/
theorem epsilonOnly (number : Nat) :
    (network.state number).epsilonOnly =
      (!(network.state number).edges.isEmpty &&
        (network.state number).edges.all Edge.isEpsilon) := by
  cases present : network.states[number]? with
  | none => simp [state, Array.getD_eq_getD_getElem?, present, State.bare]
  | some found =>
      obtain ⟨complete, isComplete, sameEdges, sameMark⟩ := stages.exists_complete present
      rw [state_eq_of_getElem? present, sameEdges, sameMark]
      refine isExact_addEdges (fun isJoined => isExact_addEdges (fun isBare => ?_) isJoined)
        isComplete
      obtain ⟨kind, rule, same⟩ := stages.bare_unmarked isBare
      have edges := congrArg State.edges same
      have mark := congrArg State.epsilonOnly same
      simp only [State.unmarked, State.unlinked, State.bare] at edges mark
      simp [State.IsExact, edges, mark]

/-- A decision that a state makes is listed with this state. -/
theorem listsDecision
    {number decision : Nat}
    (isDecision : (network.state number).decision = some decision) :
    network.decisions[decision]? = some number := by
  cases present : network.states[number]? with
  | none => simp [state, Array.getD_eq_getD_getElem?, present, State.bare] at isDecision
  | some found =>
      rw [state_eq_of_getElem? present] at isDecision
      rw [stages.states_eq, markPrecedenceDecisions, Array.getElem?_map] at present
      obtain ⟨numbered, isNumbered, rfl⟩ := Option.map_eq_some_iff.mp present
      have isDecision : numbered.decision = some decision := by
        split at isDecision <;> exact isDecision
      rw [← Array.getElem?_toList]
      refine decision_of_numberDecisions ?_ isNumbered isDecision
      exact fun isLinked => (stages.unmarked_linked isLinked).1

/-- Only states that decide on precedence are marked as such. -/
theorem precedenceDecision
    {number : Nat}
    (decides : (network.state number).precedenceDecision = true) :
    decidesPrecedence network.states network.ruleStarts (network.state number) = true := by
  cases present : network.states[number]? with
  | none => simp [state, Array.getD_eq_getD_getElem?, present, State.bare] at decides
  | some found =>
      rw [state_eq_of_getElem? present] at decides ⊢
      have isMarked := present
      rw [stages.states_eq, markPrecedenceDecisions, Array.getElem?_map] at isMarked
      obtain ⟨numbered, isNumbered, marked⟩ := Option.map_eq_some_iff.mp isMarked
      have notYet : numbered.precedenceDecision = false := by
        have same :
            stages.numbered.map State.precedenceDecision =
              stages.linked.map State.precedenceDecision := by
          apply map_numberDecisions
          exact fun _ _ => rfl
        obtain ⟨linked, isLinked, sameMark⟩ := exists_of_map_eq same isNumbered
        rw [sameMark, (stages.unmarked_linked isLinked).2]
      split at marked
      · rename_i decidesBefore
        have sameStates :
            network.states.map State.skeleton = stages.numbered.map State.skeleton :=
          stages.map_skeleton.trans stages.map_skeleton_numbered.symm
        have sameState : found.skeleton = numbered.skeleton := by
          rw [← marked]
          rfl
        rw [← decidesPrecedence_skeleton, sameStates, sameState, decidesPrecedence_skeleton]
        exact decidesBefore
      · subst marked
        rw [notYet] at decides
        cases decides

end Stages

/-- A network that was read is coherent. -/
theorem coherent_of_decode
    {data : List Int}
    {network : Network}
    (decoded : decode data = .ok network) :
    network.Coherent := by
  obtain ⟨stages⟩ := stages_of_decode decoded
  refine {
    numbered := stages.hasNumbers
    startKind := ?_
    stopKind := ?_
    target := fun member => stages.isPresent (stages.isSound member).target
    call := ?_
    returns := stages.returns
    epsilonOnly := stages.epsilonOnly
    decision := stages.listsDecision
    precedenceDecision := stages.precedenceDecision
    lexerMode := stages.lexerMode }
  · intro rule inBounds
    obtain ⟨bare, isBare, kind⟩ := stages.starts inBounds
    obtain ⟨state, present, same⟩ := stages.exists_of_bare isBare
    rw [state_eq_of_getElem? present, same, kind]
  · intro rule inBounds
    obtain ⟨bare, isBare, kind⟩ := stages.stops inBounds
    obtain ⟨state, present, same⟩ := stages.exists_of_bare isBare
    rw [state_eq_of_getElem? present, same, kind]
  · intro number target rule follow precedence member
    obtain ⟨inBounds, ⟨bare, isBare, kind⟩, isFollow⟩ := (stages.isSound member).call rfl
    obtain ⟨state, present, same⟩ := stages.exists_of_bare isBare
    exact ⟨inBounds, by rw [state_eq_of_getElem? present, same, kind],
      stages.isPresent isFollow⟩

end Network

end GrammarService
