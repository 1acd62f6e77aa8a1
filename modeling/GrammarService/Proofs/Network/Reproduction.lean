import GrammarService.Proofs.Network.Assembly

namespace GrammarService

/-!
# What is read is what was drafted

The network that is read from the encoding of a draft has the states, rules, modes and decisions of
the draft. The edges of a state are those that were added from it. Only edges that repeat an earlier
one are left out, and behind the edges of the end of a rule stand those by which the rule returns.
-/

namespace Network

open Decoder

section Reading

variable
  {draft : Draft}
  {edges : List (Nat × Edge)}

/-- Marking starts changes nothing but the mark. -/
theorem map_markStarts
    {projection : State → γ}
    (unseen : ∀ state, projection { state with leftRecursiveRule := true } = projection state)
    (starts : List Nat)
    (states : Array State) :
    (markStarts starts states).map projection = states.map projection := by
  refine foldl_keeps
    (fun after : Array State => after.map projection = states.map projection) ?_ rfl
  intro number _ before same
  rw [← same]
  exact map_modify unseen before number

/-- A state is marked if it was before or is one of the starts. -/
theorem marked_iff_of_markStarts
    {starts : List Nat}
    {states : Array State}
    {number : Nat}
    {state : State}
    (present : (markStarts starts states)[number]? = some state) :
    ∃ before,
      states[number]? = some before ∧
        (state.leftRecursiveRule = true ↔ before.leftRecursiveRule = true ∨ number ∈ starts) := by
  induction starts generalizing states with
  | nil => exact ⟨state, present, by simp⟩
  | cons start starts inductionHypothesis =>
      obtain ⟨middle, isMiddle, marked⟩ :=
        @inductionHypothesis (states.modify start ({ · with leftRecursiveRule := true })) present
      rw [Array.getElem?_modify] at isMiddle
      split at isMiddle
      · rename_i isStart
        obtain ⟨before, wasPresent, rfl⟩ := Option.map_eq_some_iff.mp isMiddle
        exact ⟨before, wasPresent, by simp [marked, isStart]⟩
      · rename_i notStart
        exact ⟨middle, isMiddle, by simp [marked, List.mem_cons, Ne.symm notStart]⟩

namespace State

/-- What a state is apart from its edges and the mark on rule starts. -/
def fixture (state : State) : State :=
  { state.edgeless with leftRecursiveRule := false }

end State

/-- States are linked as drafted as long as nothing but edges and marks on starts change. -/
theorem LinkedAsDrafted.congr
    {states after : Array State}
    {bound : Nat}
    (linked : LinkedAsDrafted draft bound states)
    (same : after.map State.fixture = states.map State.fixture) :
    LinkedAsDrafted draft bound after where
  framed := by
    have frames := congrArg (Array.map State.frame) same
    rw [Array.map_map, Array.map_map] at frames
    exact linked.framed.congr frames
  endState := by
    intro number state given inBounds present isGiven startsBlock
    obtain ⟨old, wasPresent, sameState⟩ := exists_of_map_eq same present
    have sameEnd : state.endState = old.endState := (congrArg State.endState sameState :)
    rw [sameEnd]
    exact linked.endState inBounds wasPresent isGiven startsBlock

/-- The lexer actions that are written: those of a lexer, and none of a parser. -/
def Draft.writtenActions (draft : Draft) : List LexerAction :=
  if draft.kind = .lexer then draft.lexerActions.toList else []

/-- The states of a draft once all edges were added, if they were first read as the given ones. -/
def completed
    (draft : Draft)
    (edges : List (Nat × Edge))
    (stops : List Nat)
    (first : Array State) :
    Array State :=
  let joined := addEdges (markStarts draft.leftRecursive.toList first) edges
  addEdges joined
    (returnEdges joined (draft.ruleEntries.map Prod.fst).toArray stops.toArray)

/-- Marks on starts leave the rest of the states as it was first read. -/
theorem map_fixture_markStarts
    (starts : List Nat)
    (first : Array State) :
    (markStarts starts first).map State.fixture = first.map State.fixture := by
  apply map_markStarts
  exact fun _ => rfl

/-- Edges and marks on starts leave the rest of the states as it was first read. -/
theorem map_fixture_completed
    (stops : List Nat)
    (first : Array State) :
    (completed draft edges stops first).map State.fixture = first.map State.fixture := by
  have edgeless :
      (completed draft edges stops first).map State.edgeless =
        (markStarts draft.leftRecursive.toList first).map State.edgeless :=
    (map_edgeless_addEdges _ _).trans (map_edgeless_addEdges _ _)
  have fixtures :=
    congrArg (Array.map fun state : State => { state with leftRecursiveRule := false }) edgeless
  rw [Array.map_map, Array.map_map] at fixtures
  exact Eq.trans fixtures (map_fixture_markStarts draft.leftRecursive.toList first)

/-- The states still know their numbers once all edges were added. -/
theorem numbered_completed
    {first : Array State}
    (reads : Decoder.Reads decodeStates first)
    {stops : List Nat}
    {number : Nat}
    {state : State}
    (present : (completed draft edges stops first)[number]? = some state) :
    state.number = number := by
  obtain ⟨old, wasPresent, same⟩ := exists_of_map_eq (map_fixture_completed stops first) present
  obtain ⟨kind, rule, isBare⟩ := unlinked_of_decodeStates reads wasPresent
  have sameNumber : state.number = old.number := (congrArg State.number same :)
  exact sameNumber.trans (congrArg State.number isBare)

/-- The links that were read still lead to states once all edges were added. -/
theorem linksRead_completed
    {first : Array State}
    (reads : Decoder.Reads decodeStates first)
    (stops : List Nat) :
    LinksRead (completed draft edges stops first) := by
  have joints :=
    congrArg (Array.map State.joints) (@map_fixture_completed draft edges stops first)
  rw [Array.map_map, Array.map_map] at joints
  exact (linksRead_of_decodeStates reads).congr joints

/-- The parts of a network that was read are those of a draft. -/
structure Readings.Reproduces
    (readings : Readings)
    (draft : Draft)
    (edges : List (Nat × Edge)) :
    Prop where
  kind : readings.kind = draft.kind
  maxTokenType : readings.maxTokenType = draft.maxTokenType
  framed : FramedBy draft readings.bare
  leftRecursive :
    ∀ {number : Nat} {state : State},
      readings.bare[number]? = some state →
        (state.leftRecursiveRule = true ↔ number ∈ draft.leftRecursive)
  rules : readings.rules = draft.ruleEntries
  modes : readings.modes = draft.modes.toList
  edges : readings.edges = edges
  decisions : readings.decisions = draft.decisions.toList
  actions : readings.actions = draft.writtenActions

/-- What is read as a network is decoded as it. -/
theorem decode_of_takes
    {data : List Int}
    {network : Network}
    (takes : Takes decoder data network) :
    decode data = .ok network := by
  have run := takes [] 0
  rw [List.append_nil] at run
  rw [decode, run]
  rfl

/-- Read the lexer actions, as far as a network of the given kind has any, and finish with them. -/
def finishWithActions
    (kind : GrammarKind)
    (modeCount : Nat)
    (finish : List LexerAction → α) :
    Decoder α :=
  match kind with
  | .lexer => do
      let actions ← Decoder.counted fun _ => decodeLexerAction modeCount
      return finish actions
  | .parser => do
      let actions ← pure []
      return finish actions

/-- The lexer actions of a draft as they are written. -/
def Draft.encodeLexerActions (draft : Draft) : List Int :=
  match draft.kind with
  | .lexer => encodeSection draft.lexerActions.toList encodeLexerAction
  | .parser => []

/-- The encoding of a draft, one section after the other. -/
theorem Draft.encode_eq (draft : Draft) :
    draft.encode =
      [encodingVersion, encodeKind draft.kind] ++
        draft.maxTokenType ::
          (encodeSection draft.states.toList encodeState ++
            ([0] ++
              (encodeSection draft.leftRecursive.toList (fun start => [encodeNumber start]) ++
                (encodeSection draft.rules.toList (encodeRuleEntry draft.kind) ++
                  (encodeSection draft.modes.toList (fun start => [encodeNumber start]) ++
                    (encodeSection draft.sets.toList encodeSet ++
                      (encodeSection draft.edges.toList encodeEdge ++
                        (encodeSection draft.decisions.toList
                            (fun number => [encodeNumber number]) ++
                          draft.encodeLexerActions)))))))) := by
  simp only [Draft.encode, List.append_assoc, List.cons_append, List.nil_append]
  rfl

/-- The lexer actions of a sound draft are read as far as they are written. -/
theorem takes_finishWithActions
    (sound : draft.IsSound edges)
    (finish : List LexerAction → α) :
    Takes (finishWithActions draft.kind draft.modes.toList.length finish) draft.encodeLexerActions
      (finish draft.writtenActions) := by
  unfold finishWithActions Draft.encodeLexerActions Draft.writtenActions
  cases draft.kind with
  | lexer =>
      refine Takes.map (Takes.counted_self fun _ action member => ?_) finish
      exact takes_lexerAction sound (Array.mem_toList_iff.mp member)
  | parser => exact .map (.pure []) finish

/-- The encoding of a sound draft is read part by part. -/
theorem exists_readings
    (sound : draft.IsSound edges)
    (hasEdges : draft.HasEdges edges) :
    ∃ readings : Readings,
      decode draft.encode = .ok readings.network ∧ readings.Reproduces draft edges := by
  obtain ⟨first, takesFirst, linked⟩ := exists_decodeStates sound
  have takesGreedy :
      Takes (decodeMarks (stateReference first) ({ · with nonGreedy := true }) first) [0] first := by
    have none :
        ∀ number ∈ ([] : List Nat),
          stateReference first (Draft.encodeNumber number) = .ok number := by
      simp
    exact takes_decodeMarks none
  have takesBare := takes_markStarts sound linked.framed
  have framed := (linked.congr (map_fixture_markStarts draft.leftRecursive.toList first)).framed
  have takesRules := takes_rules sound framed
  obtain ⟨stops, foundStops⟩ := exists_findStops sound framed
  rw [← draft.length_ruleEntries] at foundStops
  have takesModes := takes_modes sound framed
  have takesSets :=
    Takes.counted_map IntervalSet.ofRanges fun ranges (_ : ranges ∈ draft.sets.toList) =>
      takes_decodeSet ranges
  have takesEdges := takes_edges sound framed hasEdges
  have linkedCompleted := linked.congr (@map_fixture_completed draft edges stops first)
  obtain ⟨last, links, upTo⟩ :=
    exists_linkStates sound (linksRead_completed takesFirst.reads stops)
      (numbered_completed takesFirst.reads) linkedCompleted
  have framedLast : FramedBy draft last := by
    have frames := congrArg (Array.map State.frame) upTo.same
    rw [Array.map_map, Array.map_map] at frames
    exact linkedCompleted.framed.congr frames
  have takesDecisions := takes_decisions sound framedLast
  have readsAction :
      ∀ {action : LexerAction},
        action ∈ draft.writtenActions →
          Decoder.Reads (decodeLexerAction draft.modes.toList.length) action := by
    intro action member
    unfold Draft.writtenActions at member
    split at member
    · exact (takes_lexerAction sound (Array.mem_toList_iff.mp member)).reads
    · cases member
  refine
    ⟨{
        kind := draft.kind
        maxTokenType := draft.maxTokenType
        first := first
        greedy := first
        bare := markStarts draft.leftRecursive.toList first
        rules := draft.ruleEntries
        stops := stops
        modes := draft.modes.toList
        sets := draft.sets.toList.map IntervalSet.ofRanges
        edges := edges
        linked := last
        decisions := draft.decisions.toList
        actions := draft.writtenActions
        readsFirst := takesFirst.reads
        readsGreedy := takesGreedy.reads
        readsBare := takesBare.reads
        readsRules := takesRules.reads
        foundStops := foundStops
        readsModes := takesModes.reads
        readsEdges := takesEdges.reads
        links := links
        readsDecisions := takesDecisions.reads
        readsAction := readsAction },
      ?_,
      { kind := rfl
        maxTokenType := rfl
        framed := framed
        leftRecursive := ?_
        rules := rfl
        modes := rfl
        edges := rfl
        decisions := rfl
        actions := rfl }⟩
  · apply decode_of_takes
    rw [draft.encode_eq]
    unfold decoder
    refine (takes_decodeHeader draft.kind).bind (.integer_bind (takesFirst.bind ?_))
    refine takesGreedy.bind (takesBare.bind (takesRules.bind (.lift_bind foundStops ?_)))
    refine takesModes.bind (takesSets.bind (takesEdges.bind (.lift_bind links ?_)))
    exact takesDecisions.bind (takes_finishWithActions sound _)
  · intro number state present
    obtain ⟨before, wasPresent, marked⟩ := marked_iff_of_markStarts present
    obtain ⟨kind, rule, isBare⟩ := unlinked_of_decodeStates takesFirst.reads wasPresent
    have unmarked : before.leftRecursiveRule = false := congrArg State.leftRecursiveRule isBare
    rw [marked, unmarked, Array.mem_toList_iff]
    simp

end Reading

section Keeping

/-- The edges that are left of some that are added to a state: those that no earlier one repeats. -/
def unrepeated : List Edge → List Edge
  | [] => []
  | first :: others => first :: (unrepeated others).filter fun later => !first.repeats later

/-- What is left was added. -/
theorem mem_of_mem_unrepeated
    {added : List Edge}
    {edge : Edge}
    (member : edge ∈ unrepeated added) :
    edge ∈ added := by
  induction added with
  | nil => exact member
  | cons first others inductionHypothesis =>
      rcases List.mem_cons.mp member with rfl | later
      · exact .head _
      · exact .tail _ (inductionHypothesis (List.mem_filter.mp later).1)

/-- The edges of a list that leave one state, in order. -/
def edgesFrom
    (edges : List (Nat × Edge))
    (source : Nat) :
    List Edge :=
  edges.filterMap fun entry => if entry.1 = source then some entry.2 else none

theorem mem_edgesFrom
    {edges : List (Nat × Edge)}
    {source : Nat}
    {edge : Edge} :
    edge ∈ edgesFrom edges source ↔ (source, edge) ∈ edges := by
  unfold edgesFrom
  rw [List.mem_filterMap]
  constructor
  · rintro ⟨⟨origin, added⟩, member, leaves⟩
    split at leaves
    · rename_i isSource
      cases leaves
      exact isSource ▸ member
    · cases leaves
  · exact fun member => ⟨_, member, if_pos rfl⟩

theorem edgesFrom_cons
    (source number : Nat)
    (edge : Edge)
    (edges : List (Nat × Edge)) :
    edgesFrom ((source, edge) :: edges) number =
      if source = number then edge :: edgesFrom edges number else edgesFrom edges number := by
  unfold edgesFrom
  rw [List.filterMap_cons]
  split <;> simp_all

/-- An edge repeats another one if both lead to the same state and both are free or list the same
symbols. -/
theorem repeats_iff
    {present additional : Edge} :
    present.repeats additional = true ↔
      present.target = additional.target ∧
        (present.isEpsilon = true ∧ additional.isEpsilon = true ∨
          ∃ label, present.label? = some label ∧ additional.label? = some label) := by
  rw [Edge.repeats, Bool.and_eq_true, beq_iff_eq, Bool.or_eq_true, Bool.and_eq_true]
  refine and_congr Iff.rfl (or_congr Iff.rfl ?_)
  cases present.label? with
  | none => simp
  | some known =>
      cases additional.label? with
      | none => simp
      | some label => simp [@eq_comm _ label]

/-- A free edge lists no symbols. -/
theorem label?_of_isEpsilon
    {edge : Edge}
    (isFree : edge.isEpsilon = true) :
    edge.label? = none := by
  cases edge <;> first | rfl | cases isFree

/-- What repeats a repetition repeats the first edge. -/
theorem repeats_trans
    {first second third : Edge}
    (earlier : first.repeats second = true)
    (later : second.repeats third = true) :
    first.repeats third = true := by
  rw [repeats_iff] at earlier later ⊢
  obtain ⟨sameTarget, earlier⟩ := earlier
  obtain ⟨sameTarget', later⟩ := later
  refine ⟨sameTarget.trans sameTarget', ?_⟩
  rcases earlier with ⟨firstFree, secondFree⟩ | ⟨label, isFirst, isSecond⟩
  · rcases later with ⟨-, thirdFree⟩ | ⟨label, isSecond, -⟩
    · exact .inl ⟨firstFree, thirdFree⟩
    · rw [label?_of_isEpsilon secondFree] at isSecond
      cases isSecond
  · rcases later with ⟨secondFree, -⟩ | ⟨label', isSecond', isThird⟩
    · rw [label?_of_isEpsilon secondFree] at isSecond
      cases isSecond
    · rw [isSecond, Option.some.injEq] at isSecond'
      exact .inr ⟨label, isFirst, isSecond' ▸ isThird⟩

/-- Keep an edge behind others unless one of them is repeated by it. -/
def keep
    (present : List Edge)
    (edge : Edge) :
    List Edge :=
  if present.any fun earlier => earlier.repeats edge then present else present ++ [edge]

/-- Of the edges that are added those are kept that repeat none that are there and no earlier one. -/
theorem foldl_keep
    (present added : List Edge) :
    added.foldl keep present =
      present ++
        (unrepeated added).filter fun edge => !present.any fun earlier => earlier.repeats edge := by
  induction added generalizing present with
  | nil => simp [unrepeated]
  | cons first others inductionHypothesis =>
      rw [List.foldl_cons, inductionHypothesis, unrepeated, List.filter_cons, List.filter_filter,
        keep]
      by_cases repeated : (present.any fun earlier => earlier.repeats first) = true
      · have same :
            ∀ edge ∈ unrepeated others,
              (!present.any fun earlier => earlier.repeats edge) =
                ((!present.any fun earlier => earlier.repeats edge) && !first.repeats edge) := by
          intro edge _
          cases repeats : first.repeats edge with
          | false => simp
          | true =>
              obtain ⟨earlier, member, isRepeated⟩ := List.any_eq_true.mp repeated
              have anyRepeats : (present.any fun earlier => earlier.repeats edge) = true :=
                List.any_eq_true.mpr ⟨earlier, member, repeats_trans isRepeated repeats⟩
              simp [anyRepeats]
        simp only [repeated, if_true, Bool.not_true, Bool.false_eq_true, if_false]
        rw [List.filter_congr same]
      · simp only [Bool.not_eq_true] at repeated
        simp [repeated, List.any_append]

/-- The edges that a state without edges keeps are those that no earlier one repeats. -/
theorem foldl_keep_nil (added : List Edge) : added.foldl keep [] = unrepeated added := by
  simp [foldl_keep]

/-- A state keeps of the edges that are added from it what it has no use for otherwise. -/
theorem edges_addEdges
    {states : Array State}
    {edges : List (Nat × Edge)}
    {number : Nat}
    {state : State}
    (present : (addEdges states edges)[number]? = some state) :
    ∃ before,
      states[number]? = some before ∧
        state.edges = (edgesFrom edges number).foldl keep before.edges := by
  induction edges generalizing states with
  | nil => exact ⟨state, present, rfl⟩
  | cons entry edges inductionHypothesis =>
      obtain ⟨source, edge⟩ := entry
      obtain ⟨middle, isMiddle, same⟩ :=
        @inductionHypothesis (states.modify source fun state => state.addEdge edge) present
      rw [Array.getElem?_modify] at isMiddle
      split at isMiddle
      · rename_i isSource
        obtain ⟨before, wasPresent, rfl⟩ := Option.map_eq_some_iff.mp isMiddle
        refine ⟨before, wasPresent, ?_⟩
        rw [same, edgesFrom_cons, if_pos isSource, List.foldl_cons]
        rfl
      · rename_i notSource
        refine ⟨middle, isMiddle, ?_⟩
        rw [same, edgesFrom_cons, if_neg notSource]

end Keeping

namespace Draft

/-- The token types of the rules; only those of a lexer have any. -/
def tokenTypes (draft : Draft) : Array Int :=
  if draft.kind = .lexer then draft.rules.map Prod.snd else #[]

/-- Whether a rule starts at a state that is marked as the start of a left-recursive rule. -/
def isLeftRecursive
    (draft : Draft)
    (rule : Nat) :
    Bool :=
  draft.rules[rule]?.any fun entry => draft.leftRecursive.contains entry.1

/-- The edge by which a rule returns from a call, if the rule ends at the given state. -/
def returnEdge?
    (draft : Draft)
    (stops : Array Nat)
    (stop : Nat) :
    Edge → Option Edge
  | .call _ rule precedence follow =>
      if stops.getD rule 0 = stop then
        some (.epsilon follow
          (if draft.isLeftRecursive rule && precedence == 0 then some rule else none))
      else
        none
  | _ => none

/-- The edges by which rules return that end at a state: one for each call that a state keeps. -/
def returnsFrom
    (draft : Draft)
    (edges : List (Nat × Edge))
    (stops : Array Nat)
    (stop : Nat) :
    List Edge :=
  (List.range draft.states.size).flatMap fun caller =>
    (unrepeated (edgesFrom edges caller)).filterMap (draft.returnEdge? stops stop)

end Draft

/-- A network has the parts of a draft, and the edges that were added to it. -/
structure Restores
    (network : Network)
    (draft : Draft)
    (edges : List (Nat × Edge)) :
    Prop where
  kind : network.kind = draft.kind
  maxTokenType : network.maxTokenType = draft.maxTokenType
  states :
    network.states.map (fun state => (state.kind, state.rule)) =
      draft.states.map fun state => (state.kind, state.rule)
  ruleStarts : network.ruleStarts = draft.rules.map Prod.fst
  ruleTokenTypes : network.ruleTokenTypes = draft.tokenTypes
  modeStarts : network.modeStarts = draft.modes
  decisions : network.decisions = draft.decisions
  lexerActions : network.lexerActions.toList = draft.writtenActions
  leftRecursive :
    ∀ number,
      (network.state number).leftRecursiveRule = true ↔ number ∈ draft.leftRecursive
  /-- A rule ends at a stop state of its own. -/
  ruleStop :
    ∀ rule < draft.rules.size,
      ∃ stop state,
        network.ruleStops[rule]? = some stop ∧ draft.states[stop]? = some state ∧
          state.kind = .ruleStop ∧ state.rule = some rule
  /-- A state has the edges that were added from it, unless a rule ends there. -/
  ownEdges :
    ∀ {number : Nat} {state : DraftState},
      draft.states[number]? = some state →
        state.kind ≠ .ruleStop →
          (network.state number).edges = unrepeated (edgesFrom edges number)
  /-- Where a rule ends the edges by which it returns stand behind those that were added. -/
  edges :
    ∀ number < draft.states.size,
      (network.state number).edges =
        unrepeated
          (edgesFrom edges number ++ draft.returnsFrom edges network.ruleStops number)

section Restoring

variable
  {readings : Readings}
  {draft : Draft}
  {edges : List (Nat × Edge)}

/-- The states once the edges that were read were added have no others, and the marks as before. -/
theorem exists_joined
    (reproduces : readings.Reproduces draft edges)
    {number : Nat}
    (inBounds : number < draft.states.size) :
    ∃ joined,
      (addEdges readings.bare readings.edges)[number]? = some joined ∧
        joined.edges = unrepeated (edgesFrom edges number) ∧
          (joined.leftRecursiveRule = true ↔ number ∈ draft.leftRecursive) := by
  obtain ⟨given, isBare, -⟩ :=
    reproduces.framed.exists_state (Array.getElem?_eq_getElem inBounds)
  obtain ⟨joined, isJoined, same⟩ :=
    exists_of_map_eq (map_edgeless_addEdges readings.bare readings.edges).symm isBare
  obtain ⟨before, wasPresent, kept⟩ := edges_addEdges isJoined
  have sameMark : given.leftRecursiveRule = joined.leftRecursiveRule :=
    (congrArg State.leftRecursiveRule same :)
  refine ⟨joined, isJoined, ?_, sameMark ▸ reproduces.leftRecursive isBare⟩
  rw [kept, readings.stages.edges_bare wasPresent, foldl_keep_nil, reproduces.edges]

/-- The rules start where they were drafted to. -/
theorem ruleStarts_eq (reproduces : readings.Reproduces draft edges) :
    readings.network.ruleStarts = draft.rules.map Prod.fst := by
  have starts : draft.ruleEntries.map Prod.fst = draft.rules.toList.map Prod.fst := by
    rw [Draft.ruleEntries, List.map_map]
    apply List.map_congr_left
    intro rule _
    cases kind : draft.kind <;> rfl
  rw [Readings.network, reproduces.rules, starts, ← Array.toList_map, Array.toArray_toList]

/-- Whether a rule is left-recursive shows at its start. -/
theorem leftRecursiveRule_start
    (sound : draft.IsSound edges)
    (reproduces : readings.Reproduces draft edges)
    {rule : Nat}
    (inRules : rule < draft.rules.size) :
    ((addEdges readings.bare readings.edges).getD (readings.network.ruleStarts.getD rule 0)
        (State.bare (readings.network.ruleStarts.getD rule 0) .invalid none)).leftRecursiveRule =
      draft.isLeftRecursive rule := by
  obtain ⟨given, isGiven, -⟩ := sound.ruleStart _ (Array.getElem_mem inRules)
  obtain ⟨joined, isJoined, -, marked⟩ :=
    exists_joined reproduces (Array.getElem?_eq_some_iff.mp isGiven).1
  have isStart : readings.network.ruleStarts.getD rule 0 = draft.rules[rule].1 := by
    simp [ruleStarts_eq reproduces, Array.getD_eq_getD_getElem?, inRules]
  rw [isStart, Array.getD_eq_getD_getElem?, isJoined, Option.getD_some, Bool.eq_iff_iff, marked,
    Draft.isLeftRecursive, Array.getElem?_eq_getElem inRules, Option.any_some]
  simp

/-- All states of an array are those at its places. -/
theorem toList_eq_map_range
    (states : Array State)
    (otherwise : State) :
    states.toList = (List.range states.size).map fun number => states.getD number otherwise := by
  apply List.ext_getElem
  · simp
  · intro place inStates _
    simp at inStates
    simp [Array.getD_eq_getD_getElem?, inStates]

/-- The edges by which rules return are those that the calls of the draft ask for. -/
theorem edgesFrom_returnEdges
    (sound : draft.IsSound edges)
    (reproduces : readings.Reproduces draft edges)
    (number : Nat) :
    edgesFrom
        (returnEdges (addEdges readings.bare readings.edges) readings.network.ruleStarts
          readings.network.ruleStops)
        number =
      draft.returnsFrom edges readings.network.ruleStops number := by
  obtain ⟨joined, isJoined⟩ : ∃ joined, joined = addEdges readings.bare readings.edges := ⟨_, rfl⟩
  have size : joined.size = draft.states.size := by
    have same := congrArg Array.size (map_edgeless_addEdges readings.bare readings.edges)
    simp only [Array.size_map] at same
    rw [isJoined, same, reproduces.framed.size]
  rw [edgesFrom, returnEdges, ← isJoined, List.filterMap_flatMap, Draft.returnsFrom,
    toList_eq_map_range joined (State.bare 0 .invalid none), List.flatMap_map, size]
  refine congrArg List.flatten (List.map_congr_left fun caller member => ?_)
  have inBounds := List.mem_range.mp member
  obtain ⟨state, present, isKept, -⟩ := exists_joined reproduces inBounds
  rw [← isJoined] at present
  have isState : joined.getD caller (State.bare 0 .invalid none) = state := by
    simp [Array.getD_eq_getD_getElem?, present]
  rw [isState, List.filterMap_filterMap, ← isKept]
  refine List.filterMap_congr fun edge isEdge => ?_
  have isAdded : (caller, edge) ∈ edges := by
    rw [isJoined] at present
    rcases mem_edges_addEdges present isEdge with ⟨bare, isBare, member⟩ | isAdded
    · rw [readings.stages.edges_bare isBare] at member
      cases member
    · exact reproduces.edges ▸ isAdded
  cases edge with
  | call target rule precedence follow =>
      have inRules := (sound.call isAdded).2.1
      simp only [Option.bind_some, Draft.returnEdge?, isJoined,
        leftRecursiveRule_start sound reproduces inRules]
  | _ => rfl

/-- A state of the network has the edges that are kept of those added and of those that return. -/
theorem edges_network
    (sound : draft.IsSound edges)
    (reproduces : readings.Reproduces draft edges)
    {number : Nat}
    (inBounds : number < draft.states.size) :
    (readings.network.state number).edges =
      unrepeated
        (edgesFrom edges number ++
          draft.returnsFrom edges readings.network.ruleStops number) := by
  obtain ⟨joined, isJoined, isKept, -⟩ := exists_joined reproduces inBounds
  obtain ⟨complete, isComplete, -⟩ :=
    exists_of_map_eq
      (map_edgeless_addEdges (addEdges readings.bare readings.edges)
        (returnEdges (addEdges readings.bare readings.edges) readings.network.ruleStarts
          readings.network.ruleStops)).symm isJoined
  obtain ⟨before, wasJoined, kept⟩ := edges_addEdges isComplete
  rw [isJoined, Option.some.injEq] at wasJoined
  subst wasJoined
  obtain ⟨state, present, same⟩ := exists_of_map_eq readings.stages.map_skeleton.symm isComplete
  have sameEdges : complete.edges = state.edges := (congrArg State.edges same :)
  rw [state_eq_of_getElem? present, ← sameEdges, kept, isKept,
    edgesFrom_returnEdges sound reproduces, ← foldl_keep_nil, ← foldl_keep_nil, List.foldl_append]

/-- A state of the network is marked as a start if it was when marks were read. -/
theorem exists_bare_marked
    {number : Nat}
    {state : State}
    (present : readings.network.states[number]? = some state) :
    ∃ bare,
      readings.bare[number]? = some bare ∧ state.leftRecursiveRule = bare.leftRecursiveRule := by
  obtain ⟨complete, isComplete, same⟩ := exists_of_map_eq readings.stages.map_skeleton present
  obtain ⟨bare, isBare, same'⟩ := exists_of_map_eq readings.stages.map_edgeless isComplete
  have sameMark : state.leftRecursiveRule = complete.leftRecursiveRule :=
    (congrArg State.leftRecursiveRule same :)
  have sameMark' : complete.leftRecursiveRule = bare.leftRecursiveRule :=
    (congrArg State.leftRecursiveRule same' :)
  exact ⟨bare, isBare, sameMark.trans sameMark'⟩

/-- A rule ends at one of its stop states. -/
theorem exists_ruleStop
    (reproduces : readings.Reproduces draft edges)
    {rule : Nat}
    (inRules : rule < draft.rules.size) :
    ∃ stop state,
      readings.network.ruleStops[rule]? = some stop ∧ draft.states[stop]? = some state ∧
        state.kind = .ruleStop ∧ state.rule = some rule := by
  have inReadings : rule < readings.rules.length := by
    rwa [reproduces.rules, draft.length_ruleEntries]
  obtain ⟨stop, state, isStop, present, isKind, ofRule⟩ := readings.stop inReadings
  obtain ⟨given, isGiven, sameKind, sameRule⟩ := reproduces.framed.exists_given present
  exact ⟨stop, given, by simpa [Readings.network] using isStop, isGiven, sameKind ▸ isKind,
    sameRule ▸ ofRule⟩

/-- No rule returns where none ends. -/
theorem returnsFrom_eq_nil
    (sound : draft.IsSound edges)
    {stops : Array Nat}
    {number : Nat}
    (noStop : ∀ rule < draft.rules.size, stops.getD rule 0 ≠ number) :
    draft.returnsFrom edges stops number = [] := by
  unfold Draft.returnsFrom
  rw [List.flatMap_eq_nil_iff]
  intro caller _
  rw [List.filterMap_eq_nil_iff]
  intro edge member
  have isAdded := mem_edgesFrom.mp (mem_of_mem_unrepeated member)
  cases edge with
  | call => exact if_neg (noStop _ (sound.call isAdded).2.1)
  | _ => rfl

/-- A network whose parts were read as those of a draft has the parts of the draft. -/
theorem Readings.Reproduces.restores
    (sound : draft.IsSound edges)
    (reproduces : readings.Reproduces draft edges) :
    readings.network.Restores draft edges where
  kind := reproduces.kind
  maxTokenType := reproduces.maxTokenType
  states := by
    have edgeless := congrArg (Array.map State.frame) readings.stages.map_edgeless
    have skeleton := congrArg (Array.map State.frame) readings.stages.map_skeleton
    rw [Array.map_map, Array.map_map] at edgeless skeleton
    exact (Eq.trans skeleton edgeless).trans reproduces.framed
  ruleStarts := ruleStarts_eq reproduces
  ruleTokenTypes := by
    change (readings.rules.filterMap Prod.snd).toArray = draft.tokenTypes
    rw [reproduces.rules, Draft.ruleEntries, Draft.tokenTypes]
    cases draft.kind with
    | lexer =>
        have types : Prod.snd ∘ ruleEntry .lexer = some ∘ Prod.snd := rfl
        rw [List.filterMap_map, types, List.filterMap_eq_map, if_pos rfl, ← Array.toList_map,
          Array.toArray_toList]
    | parser => simp [List.filterMap_map, ruleEntry]
  modeStarts := by rw [Readings.network, reproduces.modes, Array.toArray_toList]
  decisions := by rw [Readings.network, reproduces.decisions, Array.toArray_toList]
  lexerActions := reproduces.actions
  leftRecursive := by
    intro number
    cases present : readings.network.states[number]? with
    | some state =>
        obtain ⟨bare, isBare, sameMark⟩ := exists_bare_marked present
        rw [state_eq_of_getElem? present, sameMark]
        exact reproduces.leftRecursive isBare
    | none =>
        constructor
        · intro marked
          simp [Network.state, Array.getD_eq_getD_getElem?, present, State.bare] at marked
        · intro member
          obtain ⟨given, isGiven, -⟩ := sound.leftRecursive number member
          obtain ⟨bare, isBare, -⟩ := reproduces.framed.exists_state isGiven
          obtain ⟨state, isThere, -⟩ := readings.exists_of_bare isBare
          rw [present] at isThere
          cases isThere
  ruleStop := fun _ inRules => exists_ruleStop reproduces inRules
  ownEdges := by
    intro number state present notStop
    have inBounds := (Array.getElem?_eq_some_iff.mp present).1
    have noStop :
        ∀ rule < draft.rules.size, readings.network.ruleStops.getD rule 0 ≠ number := by
      rintro rule inRules rfl
      obtain ⟨stop, given, isStop, isGiven, isKind, -⟩ := exists_ruleStop reproduces inRules
      rw [Array.getD_eq_getD_getElem?, isStop, Option.getD_some, isGiven] at present
      cases present
      exact notStop isKind
    rw [edges_network sound reproduces inBounds, returnsFrom_eq_nil sound noStop, List.append_nil]
  edges := fun _ inBounds => edges_network sound reproduces inBounds

end Restoring

/--
The encoding of a draft whose parts fit together is read, and the network has these parts. Its sets
are the unions of the ranges that they were drafted with.
-/
theorem restores_of_assemble
    {kind : GrammarKind}
    {maxTokenType : Int}
    {changes : List Draft.Change}
    (sound :
      (Draft.assemble kind maxTokenType changes).IsSound (Draft.addedEdges changes)) :
    (∃ network,
        decode (Draft.assemble kind maxTokenType changes).encode = .ok network ∧
          network.Restores (Draft.assemble kind maxTokenType changes)
            (Draft.addedEdges changes)) ∧
      ∀ (ranges : List (Int × Int)) (value : Int),
        (IntervalSet.ofRanges ranges).contains value = true ↔
          ∃ range ∈ ranges, range.1 ≤ value ∧ value ≤ range.2 := by
  refine ⟨?_, IntervalSet.contains_ofRanges_iff⟩
  obtain ⟨readings, decoded, reproduces⟩ :=
    exists_readings sound (Draft.hasEdges_assemble kind maxTokenType changes)
  exact ⟨readings.network, decoded, reproduces.restores sound⟩

namespace SilentAction

/--
Steps for a parser of the rules `s : e | 'a' ;` and `e : ;`, which also add a lexer action.
-/
def changes : List Draft.Change :=
  [.addState .ruleStart (some 0), .addState .ruleStop (some 0), .addState .blockStart (some 0),
    .addState .blockEnd (some 0), .addState .ruleStart (some 1), .addState .ruleStop (some 1),
    .linkState 2 3, .addRule 0 0, .addRule 4 0, .addEpsilon 0 2, .addCall 2 4 1 0 3,
    .addSet 2 3 [(1, 2)], .addEpsilon 3 1, .addEpsilon 4 5, .addDecision 2, .addLexerAction .skip]

/-- What the steps put together. -/
def draft : Draft :=
  Draft.assemble .parser 2 changes

theorem kinds :
    draft.IsOfKind 0 .ruleStart ∧ draft.IsOfKind 2 .blockStart ∧ draft.IsOfKind 3 .blockEnd ∧
      draft.IsOfKind 4 .ruleStart := by
  decide

/-- The only block starts at state 2. -/
theorem eq_of_isBlockStart
    {number : Nat}
    {state : DraftState}
    (present : draft.states[number]? = some state)
    (startsBlock : state.kind.isBlockStart = true) :
    number = 2 ∧ state.link = some 3 := by
  have inBounds := (Array.getElem?_eq_some_iff.mp present).1
  have only :
      ∀ number < draft.states.size, ∀ state ∈ draft.states[number]?, 
        state.kind.isBlockStart = true → number = 2 ∧ state.link = some 3 := by
    decide
  exact only number inBounds state present startsBlock

/-- The parts of the draft fit together. -/
theorem isSound : draft.IsSound (Draft.addedEdges changes) where
  valid := by decide
  blockEnd := by
    intro state member startsBlock
    obtain ⟨number, present⟩ := Array.mem_iff_getElem?.mp member
    exact ⟨3, (eq_of_isBlockStart present startsBlock).2, kinds.2.2.1⟩
  ownEnd := by
    intro first second firstState secondState isFirst isSecond firstStarts secondStarts _
    rw [(eq_of_isBlockStart isFirst firstStarts).1, (eq_of_isBlockStart isSecond secondStarts).1]
  loopBack := by
    have none : ∀ state ∈ draft.states, state.kind ≠ .loopEnd := by decide
    exact fun state member isLoopEnd => absurd isLoopEnd (none state member)
  ruleStart := by decide
  ruleStop := by decide
  leftRecursive := by decide
  mode := by decide
  decision := by
    intro number member
    have isFirst : number = 2 := (by decide : ∀ number ∈ draft.decisions, number = 2) number member
    exact ⟨.blockStart, isFirst ▸ kinds.2.1, rfl⟩
  lexerMode := by
    have none : ∀ action ∈ draft.lexerActions, action.mode? = none := by decide
    intro action member mode isMode
    rw [none action member] at isMode
    cases isMode
  ends := by decide
  call := by
    intro source target rule follow precedence member
    simp [Draft.addedEdges, changes, Draft.Change.edge?] at member
    obtain ⟨-, rfl, rfl, -, rfl⟩ := member
    exact ⟨kinds.2.2.2, by decide, by decide⟩
  fitsStates := by decide
  fitsRules := by decide
  fitsModes := by decide
  fitsStateRule := by
    have fits : ∀ state ∈ draft.states, ∀ rule ∈ state.rule, FitsEncoding rule := by decide
    exact fits
  fitsActionRule := by
    intro source target rule index contextDependent member
    simp [Draft.addedEdges, changes, Draft.Change.edge?] at member

/-- The parser is read from what is written, but without the action. -/
theorem lexerActions_lost :
    draft.IsSound (Draft.addedEdges changes) ∧ draft.lexerActions = #[.skip] ∧
      ∃ network, decode draft.encode = .ok network ∧ network.lexerActions = #[] := by
  obtain ⟨readings, decoded, reproduces⟩ :=
    exists_readings isSound (Draft.hasEdges_assemble .parser 2 changes)
  refine ⟨isSound, by decide, readings.network, decoded, ?_⟩
  have unwritten : readings.actions = [] := reproduces.actions
  rw [Readings.network, unwritten]

/-- Apart from the action the parser is restored, with its choice between a call and a set. -/
theorem restores_choice :
    draft.IsSound (Draft.addedEdges changes) ∧
      ∃ network,
        decode draft.encode = .ok network ∧
          network.Restores draft (Draft.addedEdges changes) ∧
            (network.state 2).edges = [.call 4 1 0 3, .set 3 (.ofRanges [(1, 2)])] := by
  refine ⟨isSound, ?_⟩
  obtain ⟨⟨network, decoded, restores⟩, -⟩ := restores_of_assemble isSound
  have drafted : draft.states[2]? = some ⟨.blockStart, some 0, some 3⟩ := by decide
  refine ⟨network, decoded, restores, ?_⟩
  rw [restores.ownEdges drafted (by decide)]
  rfl

end SilentAction

end Network

end GrammarService
