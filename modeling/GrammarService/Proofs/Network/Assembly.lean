import GrammarService.Proofs.Network.Encoding
import GrammarService.Proofs.Network.References

namespace GrammarService

/-!
# Reading a network that was drafted

A draft is put together by a list of steps. If its parts fit together, then its encoding is read,
and the network has the parts of the draft. Edges are what a draft only keeps encoded; here they are
told from the steps that added them.
-/

namespace Network

namespace Draft

/-- A step by which a draft is put together. -/
inductive Change
  | addState (kind : StateKind) (rule : Option Nat)
  | linkState (state reference : Nat)
  | addRule (start : Nat) (tokenType : Int)
  | markLeftRecursive (start : Nat)
  | addMode (start : Nat)
  | addDecision (state : Nat)
  | addLexerAction (action : LexerAction)
  | addEpsilon (source target : Nat)
  | addRange (source target : Nat) (first last : Int)
  | addCall (source start rule : Nat) (precedence : Int) (follow : Nat)
  | addAtom (source target : Nat) (label : Int)
  | addAction (source target : Nat) (rule : Option Nat) (index : Int)
  | addSet (source target : Nat) (ranges : List (Int × Int))
  | addNotSet (source target : Nat) (ranges : List (Int × Int))
  | addWildcard (source target : Nat)
  | addPrecedence (source target : Nat) (precedence : Int)
  deriving Repr, DecidableEq

namespace Change

/-- The draft with a step taken. -/
def addTo (draft : Draft) : Change → Draft
  | .addState kind rule => draft.addState kind rule
  | .linkState state reference => draft.linkState state reference
  | .addRule start tokenType => draft.addRule start tokenType
  | .markLeftRecursive start => draft.markLeftRecursive start
  | .addMode start => draft.addMode start
  | .addDecision state => draft.addDecision state
  | .addLexerAction action => draft.addLexerAction action
  | .addEpsilon source target => draft.addEpsilon source target
  | .addRange source target first last => draft.addRange source target first last
  | .addCall source start rule precedence follow =>
      draft.addCall source start rule precedence follow
  | .addAtom source target label => draft.addAtom source target label
  | .addAction source target rule index => draft.addAction source target rule index
  | .addSet source target ranges => draft.addSet source target ranges
  | .addNotSet source target ranges => draft.addNotSet source target ranges
  | .addWildcard source target => draft.addWildcard source target
  | .addPrecedence source target precedence => draft.addPrecedence source target precedence

/-- The edge that a step adds, with the state that it leaves. -/
def edge? : Change → Option (Nat × Edge)
  | .addEpsilon source target => some (source, .epsilon target none)
  | .addRange source target first last => some (source, .range target first last)
  | .addCall source start rule precedence follow =>
      some (source, .call start rule precedence follow)
  | .addAtom source target label => some (source, .atom target label)
  | .addAction source target rule index => some (source, .action target rule index false)
  | .addSet source target ranges => some (source, .set target (.ofRanges ranges))
  | .addNotSet source target ranges => some (source, .notSet target (.ofRanges ranges))
  | .addWildcard source target => some (source, .wildcard target)
  | .addPrecedence source target precedence => some (source, .precedence target precedence)
  | _ => none

end Change

/-- The draft that some steps put together. -/
def assemble
    (kind : GrammarKind)
    (maxTokenType : Int)
    (changes : List Change) :
    Draft :=
  changes.foldl Change.addTo (empty kind maxTokenType)

/-- The edges that some steps add, in order. -/
def addedEdges (changes : List Change) : List (Nat × Edge) :=
  changes.filterMap Change.edge?

/-- What an edge of a draft is the encoding of, where sets are told by their places. -/
inductive Encodes (sets : Array (List (Int × Int))) : DraftEdge → Nat × Edge → Prop where
  | epsilon
      {source target : Nat} :
      Encodes sets ⟨source, target, 1, 0, 0, 0⟩ (source, .epsilon target none)
  | range
      {source target : Nat}
      {first last : Int} :
      Encodes sets ⟨source, target, 2, first, last, 0⟩ (source, .range target first last)
  | call
      {source start rule follow : Nat}
      {precedence : Int} :
      Encodes sets ⟨source, follow, 3, encodeNumber start, encodeNumber rule, precedence⟩
        (source, .call start rule precedence follow)
  | atom
      {source target : Nat}
      {label : Int} :
      Encodes sets ⟨source, target, 5, label, 0, 0⟩ (source, .atom target label)
  | endAtom
      {source target : Nat} :
      Encodes sets ⟨source, target, 5, 0, 0, 1⟩ (source, .atom target endOfInput)
  | action
      {source target : Nat}
      {rule : Option Nat}
      {index : Int} :
      Encodes sets ⟨source, target, 6, encodeRule rule, index, 0⟩
        (source, .action target rule index false)
  | set
      {source target place : Nat}
      {ranges : List (Int × Int)}
      (isSet : sets[place]? = some ranges) :
      Encodes sets ⟨source, target, 7, place, 0, 0⟩ (source, .set target (.ofRanges ranges))
  | notSet
      {source target place : Nat}
      {ranges : List (Int × Int)}
      (isSet : sets[place]? = some ranges) :
      Encodes sets ⟨source, target, 8, place, 0, 0⟩ (source, .notSet target (.ofRanges ranges))
  | wildcard
      {source target : Nat} :
      Encodes sets ⟨source, target, 9, 0, 0, 0⟩ (source, .wildcard target)
  | precedence
      {source target : Nat}
      {precedence : Int} :
      Encodes sets ⟨source, target, 10, precedence, 0, 0⟩ (source, .precedence target precedence)

/-- An edge stays the encoding of what it was when another set is added. -/
theorem Encodes.push
    {sets : Array (List (Int × Int))}
    {given : DraftEdge}
    {entry : Nat × Edge}
    (encodes : Encodes sets given entry)
    (ranges : List (Int × Int)) :
    Encodes (sets.push ranges) given entry := by
  have kept :
      ∀ {place : Nat} {others : List (Int × Int)},
        sets[place]? = some others → (sets.push ranges)[place]? = some others := by
    intro place others isSet
    obtain ⟨inBounds, -⟩ := Array.getElem?_eq_some_iff.mp isSet
    rw [Array.getElem?_push_lt inBounds, ← isSet, Array.getElem?_eq_getElem inBounds]
  cases encodes with
  | set isSet => exact .set (kept isSet)
  | notSet isSet => exact .notSet (kept isSet)
  | epsilon => exact .epsilon
  | range => exact .range
  | call => exact .call
  | atom => exact .atom
  | endAtom => exact .endAtom
  | action => exact .action
  | wildcard => exact .wildcard
  | precedence => exact .precedence

/-- The edges of a draft are the encodings of some edges, in order. -/
def HasEdges
    (draft : Draft)
    (edges : List (Nat × Edge)) :
    Prop :=
  List.Forall₂ (Encodes draft.sets) draft.edges.toList edges

/-- An edge that is encoded and added stands behind the others. -/
theorem HasEdges.addEdge
    {draft : Draft}
    {edges : List (Nat × Edge)}
    (hasEdges : draft.HasEdges edges)
    {source target : Nat}
    {type first second third : Int}
    {entry : Nat × Edge}
    (encodes : Encodes draft.sets ⟨source, target, type, first, second, third⟩ entry) :
    (draft.addEdge source target type first second third).HasEdges (edges ++ [entry]) := by
  unfold HasEdges Draft.addEdge
  rw [Array.toList_push]
  exact List.rel_append hasEdges (.cons encodes .nil)

/-- A set may be added for the edge that comes next. -/
theorem HasEdges.addSet
    {draft : Draft}
    {edges : List (Nat × Edge)}
    (hasEdges : draft.HasEdges edges)
    (ranges : List (Int × Int)) :
    { draft with sets := draft.sets.push ranges }.HasEdges edges :=
  List.Forall₂.imp (fun _ _ encodes => encodes.push ranges) hasEdges

/-- A step adds the edge that it is said to add. -/
theorem HasEdges.change
    {draft : Draft}
    {edges : List (Nat × Edge)}
    (hasEdges : draft.HasEdges edges)
    (change : Change) :
    (change.addTo draft).HasEdges (edges ++ change.edge?.toList) := by
  cases change with
  | addEpsilon => exact hasEdges.addEdge .epsilon
  | addRange => exact hasEdges.addEdge .range
  | addCall => exact hasEdges.addEdge .call
  | addAtom source target label =>
      by_cases isEnd : label = endOfInput
      · subst isEnd
        exact hasEdges.addEdge .endAtom
      · have added : draft.addAtom source target label = draft.addEdge source target 5 label 0 0 :=
          if_neg isEnd
        rw [Change.addTo, added]
        exact hasEdges.addEdge .atom
  | addAction => exact hasEdges.addEdge .action
  | addSet source target ranges =>
      refine (hasEdges.addSet ranges).addEdge (.set ?_)
      exact Array.getElem?_push_size
  | addNotSet source target ranges =>
      refine (hasEdges.addSet ranges).addEdge (.notSet ?_)
      exact Array.getElem?_push_size
  | addWildcard => exact hasEdges.addEdge .wildcard
  | addPrecedence => exact hasEdges.addEdge .precedence
  | _ =>
      change HasEdges _ (edges ++ [])
      rw [List.append_nil]
      exact hasEdges

/-- The edges of a draft are those that the steps added. -/
theorem hasEdges_assemble
    (kind : GrammarKind)
    (maxTokenType : Int)
    (changes : List Change) :
    (assemble kind maxTokenType changes).HasEdges (addedEdges changes) := by
  have added :
      ∀ (draft : Draft) (edges : List (Nat × Edge)),
        draft.HasEdges edges →
          (changes.foldl Change.addTo draft).HasEdges (edges ++ addedEdges changes) := by
    induction changes with
    | nil =>
        intro draft edges hasEdges
        simpa [addedEdges] using hasEdges
    | cons change changes inductionHypothesis =>
        intro draft edges hasEdges
        have later := inductionHypothesis _ _ (hasEdges.change change)
        cases isEdge : change.edge? <;>
          simpa [addedEdges, isEdge, List.filterMap_cons] using later
  exact added _ [] .nil

/-- A state of a draft is of some kind. -/
def IsOfKind
    (draft : Draft)
    (number : Nat)
    (kind : StateKind) :
    Prop :=
  ∃ state, draft.states[number]? = some state ∧ state.kind = kind

instance
    (draft : Draft)
    (number : Nat)
    (kind : StateKind) :
    Decidable (draft.IsOfKind number kind) :=
  decidable_of_iff (draft.states[number]?.map DraftState.kind = some kind) Option.map_eq_some_iff

/-- The parts of a draft fit together, and its numbers are not too great to be written. -/
structure IsSound
    (draft : Draft)
    (edges : List (Nat × Edge)) :
    Prop where
  valid : ∀ state ∈ draft.states, state.kind ≠ .invalid
  blockEnd :
    ∀ state ∈ draft.states,
      state.kind.isBlockStart = true →
        ∃ link, state.link = some link ∧ draft.IsOfKind link .blockEnd
  ownEnd :
    ∀ {first second : Nat} {firstState secondState : DraftState},
      draft.states[first]? = some firstState →
        draft.states[second]? = some secondState →
          firstState.kind.isBlockStart = true →
            secondState.kind.isBlockStart = true →
              firstState.link = secondState.link → first = second
  loopBack :
    ∀ state ∈ draft.states,
      state.kind = .loopEnd → ∃ link, state.link = some link ∧ link < draft.states.size
  ruleStart : ∀ rule ∈ draft.rules, draft.IsOfKind rule.1 .ruleStart
  ruleStop :
    ∀ rule < draft.rules.size,
      ∃ state ∈ draft.states, state.kind = .ruleStop ∧ state.rule = some rule
  leftRecursive : ∀ start ∈ draft.leftRecursive, draft.IsOfKind start .ruleStart
  mode : ∀ start ∈ draft.modes, draft.IsOfKind start .tokenStart
  decision :
    ∀ number ∈ draft.decisions,
      ∃ kind, draft.IsOfKind number kind ∧ kind.isDecision = true
  lexerMode :
    ∀ action ∈ draft.lexerActions, ∀ mode, action.mode? = some mode → mode < draft.modes.size
  ends :
    ∀ entry ∈ edges,
      entry.1 < draft.states.size ∧ entry.2.target < draft.states.size
  call :
    ∀ {source target rule follow : Nat} {precedence : Int},
      (source, Edge.call target rule precedence follow) ∈ edges →
        draft.IsOfKind target .ruleStart ∧ rule < draft.rules.size ∧
          follow < draft.states.size
  fitsStates : FitsEncoding draft.states.size
  fitsRules : FitsEncoding draft.rules.size
  fitsModes : FitsEncoding draft.modes.size
  fitsStateRule :
    ∀ state ∈ draft.states, ∀ rule, state.rule = some rule → FitsEncoding rule
  fitsActionRule :
    ∀ {source target rule : Nat} {index : Int} {contextDependent : Bool},
      (source, Edge.action target (some rule) index contextDependent) ∈ edges →
        FitsEncoding rule

end Draft

open Decoder

/-- Numbers below one that fits do so as well. -/
theorem FitsEncoding.of_lt
    {number bound : Nat}
    (fits : FitsEncoding bound)
    (below : number < bound) :
    FitsEncoding number := by
  unfold FitsEncoding at fits ⊢
  omega

/-- What states and drafted states have in common: their kinds and rules. -/
def State.frame (state : State) : StateKind × Option Nat :=
  (state.kind, state.rule)

/-- The states are those of a draft, apart from edges, links and marks. -/
def FramedBy
    (draft : Draft)
    (states : Array State) :
    Prop :=
  states.map State.frame = draft.states.map fun state => (state.kind, state.rule)

namespace FramedBy

variable {draft : Draft} {states after : Array State} {number : Nat}

/-- States look like the drafted ones as long as kinds and rules are kept. -/
theorem congr
    (framed : FramedBy draft states)
    (same : after.map State.frame = states.map State.frame) :
    FramedBy draft after :=
  same.trans framed

theorem size (framed : FramedBy draft states) : states.size = draft.states.size := by
  simpa using congrArg Array.size framed

/-- A drafted state stands at its place. -/
theorem exists_state
    (framed : FramedBy draft states)
    {given : DraftState}
    (isGiven : draft.states[number]? = some given) :
    ∃ state, states[number]? = some state ∧ state.kind = given.kind ∧ state.rule = given.rule := by
  have places := congrArg (fun frames => frames[number]?) framed
  simp only [Array.getElem?_map, isGiven, Option.map_some] at places
  obtain ⟨state, present, same⟩ := Option.map_eq_some_iff.mp places
  exact ⟨state, present, congrArg Prod.fst same, congrArg Prod.snd same⟩

/-- A state was drafted at its place. -/
theorem exists_given
    (framed : FramedBy draft states)
    {state : State}
    (present : states[number]? = some state) :
    ∃ given, draft.states[number]? = some given ∧ state.kind = given.kind ∧
      state.rule = given.rule := by
  have inBounds : number < draft.states.size :=
    framed.size ▸ (Array.getElem?_eq_some_iff.mp present).1
  obtain ⟨found, isFound, kind, rule⟩ :=
    framed.exists_state (Array.getElem?_eq_getElem inBounds)
  rw [present, Option.some.injEq] at isFound
  exact ⟨_, Array.getElem?_eq_getElem inBounds, isFound ▸ kind, isFound ▸ rule⟩

/-- A state of a kind that was drafted is of that kind. -/
theorem of_isOfKind
    (framed : FramedBy draft states)
    {kind : StateKind}
    (isOfKind : draft.IsOfKind number kind) :
    ∃ state, states[number]? = some state ∧ state.kind = kind := by
  obtain ⟨given, isGiven, isKind⟩ := isOfKind
  obtain ⟨state, present, sameKind, -⟩ := framed.exists_state isGiven
  exact ⟨state, present, sameKind.trans isKind⟩

variable {edges : List (Nat × Edge)}

/-- The states of a sound draft are all present. -/
theorem isPresent
    (framed : FramedBy draft states)
    (sound : draft.IsSound edges)
    (inBounds : number < draft.states.size) :
    IsPresent states number := by
  have isGiven := Array.getElem?_eq_getElem inBounds
  obtain ⟨state, present, sameKind, -⟩ := framed.exists_state isGiven
  exact ⟨state, present, sameKind ▸ sound.valid _ (Array.mem_of_getElem? isGiven)⟩

/-- A reference to a drafted state is accepted. -/
theorem stateReference
    (framed : FramedBy draft states)
    (sound : draft.IsSound edges)
    (inBounds : number < draft.states.size) :
    stateReference states (Draft.encodeNumber number) = .ok number :=
  stateReference_encodeNumber (sound.fitsStates.of_lt inBounds)
    (framed.isPresent sound inBounds)

/-- A reference to a drafted state of the kind that is expected is accepted. -/
theorem stateReferenceOf
    (framed : FramedBy draft states)
    (sound : draft.IsSound edges)
    {kind : StateKind}
    (isOfKind : draft.IsOfKind number kind) :
    stateReferenceOf states kind (Draft.encodeNumber number) = .ok number := by
  obtain ⟨given, isGiven, isKind⟩ := isOfKind
  obtain ⟨state, present, sameKind, -⟩ := framed.exists_state isGiven
  refine stateReferenceOf_encodeNumber (sound.fitsStates.of_lt ?_) present
    (sameKind.trans isKind) ?_
  · exact (Array.getElem?_eq_some_iff.mp isGiven).1
  · exact isKind ▸ sound.valid given (Array.mem_of_getElem? isGiven)

end FramedBy

/-- A checked fold succeeds if each step does and carries on what the next one needs. -/
theorem exists_foldlM
    {step : β → α → Except ε β}
    (property : Nat → β → Prop)
    {items : List α}
    (carries :
      ∀ {place : Nat} {item : α},
        items[place]? = some item →
          ∀ {before : β},
            property place before →
              ∃ after, step before item = .ok after ∧ property (place + 1) after)
    {before : β}
    (holds : property 0 before) :
    ∃ after, items.foldlM step before = .ok after ∧ property items.length after := by
  induction items generalizing property before with
  | nil => exact ⟨before, rfl, holds⟩
  | cons head tail inductionHypothesis =>
      obtain ⟨middle, stepped, holdsMiddle⟩ := @carries 0 head rfl before holds
      obtain ⟨after, folded, holdsAfter⟩ :=
        inductionHypothesis (fun place => property (place + 1))
          (fun {place item} isItem => @carries (place + 1) item isItem) holdsMiddle
      refine ⟨after, ?_, holdsAfter⟩
      rw [List.foldlM_cons, stepped]
      exact folded

/-- Where every item gives a value, all items do together. -/
theorem exists_mapM
    {give : α → Except ε β}
    {items : List α}
    (gives : ∀ item ∈ items, ∃ value, give item = .ok value) :
    ∃ values, items.mapM give = .ok values := by
  induction items with
  | nil => exact ⟨[], rfl⟩
  | cons head tail inductionHypothesis =>
      obtain ⟨value, given⟩ := gives head List.mem_cons_self
      obtain ⟨values, others⟩ :=
        inductionHypothesis fun item member => gives item (List.mem_cons_of_mem head member)
      refine ⟨value :: values, ?_⟩
      rw [List.mapM_cons, given, others]
      rfl

/-- A rule with a stop state has a last one. -/
theorem exists_lastStopOf?
    {states : Array State}
    {rule : Nat}
    (stops : ∃ state ∈ states, state.kind = .ruleStop ∧ state.rule = some rule) :
    ∃ stop, lastStopOf? states rule = some stop := by
  obtain ⟨state, member, kind, ofRule⟩ := stops
  have found :
      ∀ (items : List State) (last : Option Nat),
        last.isSome = true ∨ state ∈ items →
          (items.foldl
            (fun last state =>
              if state.kind = .ruleStop && state.rule == some rule then
                some state.number
              else
                last)
            last).isSome = true := by
    intro items
    induction items with
    | nil => simp
    | cons head tail inductionHypothesis =>
        intro last seen
        rw [List.foldl_cons]
        apply inductionHypothesis
        split
        · exact .inl rfl
        · rename_i noStop
          rcases seen with isSome | isThere
          · exact .inl isSome
          · rcases List.mem_cons.mp isThere with rfl | isBehind
            · simp [kind, ofRule] at noStop
            · exact .inr isBehind
  rw [lastStopOf?, ← Array.foldl_toList]
  exact Option.isSome_iff_exists.mp (found _ none (.inr (Array.mem_toList_iff.mpr member)))

/-- The states with the starts of left-recursive rules marked. -/
def markStarts
    (starts : List Nat)
    (states : Array State) :
    Array State :=
  starts.foldl
    (fun states number => states.modify number ({ · with leftRecursiveRule := true })) states

/-- The rules of a draft as they are read. -/
def Draft.ruleEntries (draft : Draft) : List (Nat × Option Int) :=
  draft.rules.toList.map (ruleEntry draft.kind)

/-- No rule is lost when the rules are read. -/
@[simp] theorem Draft.length_ruleEntries (draft : Draft) :
    draft.ruleEntries.length = draft.rules.size := by
  simp [ruleEntries]

section Drafted

variable
  {draft : Draft}
  {edges : List (Nat × Edge)}
  (sound : draft.IsSound edges)

include sound

/-- Every rule of a sound draft has a stop. -/
theorem exists_findStops
    {states : Array State}
    (framed : FramedBy draft states) :
    ∃ stops, findStops states draft.rules.size = .ok stops := by
  refine exists_mapM fun rule member => ?_
  obtain ⟨given, isGiven, kind, ofRule⟩ := sound.ruleStop rule (List.mem_range.mp member)
  obtain ⟨number, isAt⟩ := Array.mem_iff_getElem?.mp isGiven
  obtain ⟨state, present, sameKind, sameRule⟩ := framed.exists_state isAt
  obtain ⟨stop, isLast⟩ :=
    exists_lastStopOf? ⟨state, Array.mem_of_getElem? present, sameKind.trans kind,
      sameRule.trans ofRule⟩
  exact ⟨stop, by rw [isLast]⟩

/-- The states of a draft as they are first read. -/
def encodedStates (draft : Draft) : List EncodedState :=
  draft.states.toList.mapIdx encodedStateOf

omit sound in
/-- The states that are first read are framed by the draft. -/
theorem framedBy_encodedStates :
    FramedBy draft ((encodedStates draft).map EncodedState.state).toArray := by
  apply Array.ext_getElem?
  intro number
  simp only [encodedStates, Array.getElem?_map, List.getElem?_toArray, List.getElem?_map,
    List.getElem?_mapIdx, Array.getElem?_toList]
  cases draft.states[number]? <;> rfl

omit sound in
/-- What was first read at a place was drafted there. -/
theorem exists_of_encodedStates
    {place : Nat}
    {entry : EncodedState}
    (isEntry : (encodedStates draft)[place]? = some entry) :
    ∃ given, draft.states[place]? = some given ∧ entry = encodedStateOf place given := by
  rw [encodedStates, List.getElem?_mapIdx, Array.getElem?_toList] at isEntry
  obtain ⟨given, isGiven, rfl⟩ := Option.map_eq_some_iff.mp isEntry
  exact ⟨given, isGiven, rfl⟩

omit sound in
/-- A change that keeps kinds and rules keeps the frames. -/
theorem FramedBy.modify
    {states : Array State}
    (framed : FramedBy draft states)
    {change : State → State}
    (keeps : ∀ state, (change state).frame = state.frame)
    (number : Nat) :
    FramedBy draft (states.modify number change) :=
  framed.congr (map_modify keeps states number)

/-- The loop ends of a sound draft are linked. -/
theorem exists_linkLoopEnds
    {states : Array State}
    (framed : FramedBy draft states) :
    ∃ after, linkLoopEnds (encodedStates draft) states = .ok after ∧ FramedBy draft after := by
  refine exists_foldlM (fun _ states => FramedBy draft states) ?_ framed
  intro place entry isEntry before framed
  obtain ⟨given, isGiven, rfl⟩ := exists_of_encodedStates isEntry
  by_cases isLoop : given.kind = .loopEnd
  · obtain ⟨link, isLink, inBounds⟩ :=
      sound.loopBack given (Array.mem_of_getElem? isGiven) isLoop
    have refers := framed.stateReference sound inBounds
    refine ⟨before.modify place ({ · with loopBackState := some link }), ?_,
      framed.modify ?_ place⟩
    · simp only [encodedStateOf, State.bare, isLoop, isLink, decide_true, Bool.true_or, if_true,
        Draft.encodeRule, refers]
      rfl
    · exact fun _ => rfl
  · refine ⟨before, ?_, framed⟩
    simp only [encodedStateOf, State.bare, isLoop, decide_false, Bool.false_or, if_false]
    split <;> rfl

/-- The states are framed by a draft, and the first of its blocks are linked as they were. -/
structure LinkedAsDrafted
    (draft : Draft)
    (bound : Nat)
    (states : Array State) :
    Prop where
  framed : FramedBy draft states
  endState :
    ∀ {number : Nat} {state : State} {given : DraftState},
      number < bound →
        states[number]? = some state →
          draft.states[number]? = some given →
            given.kind.isBlockStart = true → state.endState = given.link

/-- The block starts of a sound draft are linked. -/
theorem exists_linkBlockStarts
    {states : Array State}
    (framed : FramedBy draft states) :
    ∃ after,
      linkBlockStarts (encodedStates draft) states = .ok after ∧
        LinkedAsDrafted draft draft.states.size after := by
  have length : (encodedStates draft).length = draft.states.size := by simp [encodedStates]
  rw [← length]
  refine exists_foldlM (LinkedAsDrafted draft) ?_ ⟨framed, by simp⟩
  intro place entry isEntry before linked
  obtain ⟨given, isGiven, rfl⟩ := exists_of_encodedStates isEntry
  -- Only the block at this place is new, and it can be no other one.
  have only :
      ∀ {number : Nat} {other : DraftState},
        number < place + 1 → ¬ number < place → draft.states[number]? = some other →
          number = place ∧ other = given := by
    intro number other inBounds notBefore isOther
    obtain rfl : number = place := by omega
    rw [isGiven, Option.some.injEq] at isOther
    exact ⟨rfl, isOther.symm⟩
  by_cases isStart : given.kind.isBlockStart = true
  · obtain ⟨link, isLink, isEnd⟩ :=
      sound.blockEnd given (Array.mem_of_getElem? isGiven) isStart
    have refers := linked.framed.stateReferenceOf sound isEnd
    refine ⟨before.modify place ({ · with endState := some link }), ?_,
      linked.framed.modify ?_ place, ?_⟩
    · simp only [encodedStateOf, State.bare, isStart, isLink, Bool.or_true, if_true,
        Draft.encodeRule, refers]
      rfl
    · exact fun _ => rfl
    · intro number state other inBounds present isOther startsBlock
      rw [Array.getElem?_modify] at present
      by_cases isEarlier : number < place
      · rw [if_neg (by omega)] at present
        exact linked.endState isEarlier present isOther startsBlock
      · obtain ⟨rfl, rfl⟩ := only inBounds isEarlier isOther
        rw [if_pos rfl] at present
        obtain ⟨old, -, rfl⟩ := Option.map_eq_some_iff.mp present
        exact isLink.symm
  · refine ⟨before, ?_, linked.framed, ?_⟩
    · simp only [encodedStateOf, State.bare, isStart]
      split <;> rfl
    · intro number state other inBounds present isOther startsBlock
      by_cases isEarlier : number < place
      · exact linked.endState isEarlier present isOther startsBlock
      · obtain ⟨-, rfl⟩ := only inBounds isEarlier isOther
        exact absurd startsBlock isStart

/-- The states of a sound draft are read, and its blocks are linked. -/
theorem exists_decodeStates :
    ∃ states,
      Takes decodeStates (Draft.encodeSection draft.states.toList Draft.encodeState) states ∧
        LinkedAsDrafted draft draft.states.size states := by
  obtain ⟨looped, linksLoops, framed⟩ := exists_linkLoopEnds sound framedBy_encodedStates
  obtain ⟨states, linksBlocks, linked⟩ := exists_linkBlockStarts sound framed
  refine ⟨states, ?_, linked⟩
  have reads :
      Takes (Decoder.counted decodeState)
        (Draft.encodeSection draft.states.toList Draft.encodeState) (encodedStates draft) := by
    refine Takes.counted (by simp [encodedStates]) ?_
    intro place given entry isGiven isEntry
    rw [Array.getElem?_toList] at isGiven
    obtain ⟨found, isFound, rfl⟩ := exists_of_encodedStates isEntry
    rw [isGiven, Option.some.injEq] at isFound
    subst isFound
    have member := Array.mem_of_getElem? isGiven
    exact takes_decodeState (sound.valid given member) (sound.fitsStateRule given member) place
  rw [← List.append_nil (Draft.encodeSection _ _)]
  exact reads.bind (.lift_bind linksLoops (.lift linksBlocks))

/-- An edge is read if it joins drafted states and can be built. -/
theorem takes_decodeEdge_of_edgeOf
    {tables : EdgeTables}
    (framed : FramedBy draft tables.states)
    {source target : Nat}
    (sourceIn : source < draft.states.size)
    (targetIn : target < draft.states.size)
    {type first second third : Int}
    {edge : Edge}
    (built : edgeOf tables type target first second third = .ok edge) :
    Takes (decodeEdge tables)
      (Draft.encodeEdge ⟨source, target, type, first, second, third⟩) (source, edge) := by
  unfold decodeEdge Draft.encodeEdge
  refine .integer_bind (.lift_bind (framed.stateReference sound sourceIn) ?_)
  refine .integer_bind (.lift_bind (framed.stateReference sound targetIn) ?_)
  refine .integer_bind (.integer_bind (.integer_bind (.integer_bind ?_)))
  exact .lift_bind built (.pure _)

/-- An edge of a sound draft is read as what it is the encoding of. -/
theorem takes_decodeEdge
    {tables : EdgeTables}
    (framed : FramedBy draft tables.states)
    (sets : tables.sets = draft.sets.map IntervalSet.ofRanges)
    (ruleCount : tables.ruleCount = draft.rules.size)
    {given : DraftEdge}
    {entry : Nat × Edge}
    (encodes : Draft.Encodes draft.sets given entry)
    (member : entry ∈ edges) :
    Takes (decodeEdge tables) (Draft.encodeEdge given) entry := by
  obtain ⟨sourceIn, targetIn⟩ := sound.ends entry member
  have symbols :
      ∀ {place : Nat} {ranges : List (Int × Int)},
        draft.sets[place]? = some ranges →
          setReference tables.sets place = .ok (IntervalSet.ofRanges ranges) := by
    intro place ranges isSet
    rw [setReference, index?_natCast, Option.bind_some, sets, Array.getElem?_map, isSet]
    rfl
  cases encodes with
  | call =>
      obtain ⟨isStart, inRules, followIn⟩ := sound.call member
      refine takes_decodeEdge_of_edgeOf sound framed sourceIn followIn ?_
      have refersRule := ruleReference_encodeNumber (sound.fitsRules.of_lt inRules) inRules
      rw [← ruleCount] at refersRule
      simp only [edgeOf, framed.stateReferenceOf sound isStart, refersRule]
      rfl
  | @action source target rule index =>
      refine takes_decodeEdge_of_edgeOf sound framed sourceIn targetIn ?_
      have isRule : index? (Draft.encodeRule rule) = rule := by
        refine index?_encodeRule ?_
        rintro number rfl
        exact sound.fitsActionRule member
      simp only [edgeOf, isRule]
      rfl
  | set isSet =>
      refine takes_decodeEdge_of_edgeOf sound framed sourceIn targetIn ?_
      simp only [edgeOf, symbols isSet]
      rfl
  | notSet isSet =>
      refine takes_decodeEdge_of_edgeOf sound framed sourceIn targetIn ?_
      simp only [edgeOf, symbols isSet]
      rfl
  | epsilon => exact takes_decodeEdge_of_edgeOf sound framed sourceIn targetIn rfl
  | range => exact takes_decodeEdge_of_edgeOf sound framed sourceIn targetIn rfl
  | atom => exact takes_decodeEdge_of_edgeOf sound framed sourceIn targetIn rfl
  | endAtom => exact takes_decodeEdge_of_edgeOf sound framed sourceIn targetIn rfl
  | wildcard => exact takes_decodeEdge_of_edgeOf sound framed sourceIn targetIn rfl
  | precedence => exact takes_decodeEdge_of_edgeOf sound framed sourceIn targetIn rfl

/-- The next block can be linked to its end, since no other one ends there. -/
theorem exists_linkBlockEnd
    {states before : Array State}
    (linked : LinkedAsDrafted draft draft.states.size states)
    {number : Nat}
    (upTo : LinkedUpTo states number before)
    {state : State}
    (present : before[number]? = some state) :
    ∃ after, linkBlockEnd before state = .ok after := by
  obtain ⟨old, wasPresent, sameState⟩ := exists_of_map_eq upTo.same present
  obtain ⟨given, isGiven, sameKind, -⟩ := linked.framed.exists_given wasPresent
  have inDraft : ∀ {place : Nat} {given : DraftState},
      draft.states[place]? = some given → place < draft.states.size :=
    fun isGiven => (Array.getElem?_eq_some_iff.mp isGiven).1
  have unchanged : state.kind = old.kind := (congrArg State.kind sameState :)
  have isKind : state.kind = given.kind := unchanged.trans sameKind
  unfold linkBlockEnd
  by_cases isStart : state.kind.isBlockStart = true
  · rw [isKind] at isStart
    obtain ⟨link, isLink, isEnd⟩ := sound.blockEnd given (Array.mem_of_getElem? isGiven) isStart
    have endState : state.endState = some link := by
      have sameEnd : state.endState = old.endState := (congrArg State.endState sameState :)
      rw [sameEnd, linked.endState (inDraft isGiven) wasPresent isGiven isStart, isLink]
    have free : (before.getD link (State.bare link .invalid none)).startState = none := by
      obtain ⟨ending, isThere, -⟩ := linked.framed.of_isOfKind isEnd
      obtain ⟨target, isTarget, -⟩ := exists_of_map_eq upTo.same.symm isThere
      rw [Array.getD_eq_getD_getElem?, isTarget, Option.getD_some]
      by_contra taken
      obtain ⟨block, isBlock⟩ := Option.ne_none_iff_exists'.mp taken
      obtain ⟨isEarlier, start, isOther, startsBlock, endsThere⟩ :=
        (upTo.blockStart isTarget).mp isBlock
      obtain ⟨other, isOtherGiven, otherKind, -⟩ := linked.framed.exists_given isOther
      rw [otherKind] at startsBlock
      rw [linked.endState (inDraft isOtherGiven) isOther isOtherGiven startsBlock] at endsThere
      have same :=
        sound.ownEnd isOtherGiven isGiven startsBlock isStart (endsThere.trans isLink.symm)
      omega
    rw [if_pos (isKind ▸ isStart), endState]
    simp only [free, Option.isSome_none, Bool.false_eq_true, if_false]
    exact ⟨_, rfl⟩
  · exact ⟨before, if_neg isStart⟩

/-- The blocks of a sound draft can be linked to their ends and back. -/
theorem exists_linkStates
    {states : Array State}
    (read : LinksRead states)
    (numbered :
      ∀ {number : Nat} {state : State}, states[number]? = some state → state.number = number)
    (linked : LinkedAsDrafted draft draft.states.size states) :
    ∃ after, linkStates states = .ok after ∧ LinkedUpTo states states.size after := by
  suffices
      ∃ after,
        linkStates states = .ok after ∧ LinkedUpTo states (List.range states.size).length after by
    rwa [List.length_range] at this
  refine exists_foldlM (LinkedUpTo states) ?_ (.zero read)
  intro place number isAt before upTo
  obtain ⟨inRange, isPlace⟩ := List.getElem?_eq_some_iff.mp isAt
  rw [List.getElem_range] at isPlace
  subst isPlace
  have inBounds : place < states.size := by simpa using inRange
  have sameSize : before.size = states.size := by
    simpa using congrArg Array.size upTo.same
  have present : before[place]? = some before[place] := Array.getElem?_eq_getElem (by omega)
  have isState : before.getD place (State.bare place .invalid none) = before[place] := by
    simp [Array.getD_eq_getD_getElem?, present]
  obtain ⟨middle, linksEnd⟩ := exists_linkBlockEnd sound linked upTo present
  have stepped :
      (do
        let state := before.getD place (State.bare place .invalid none)
        let states ← linkBlockEnd before state
        return linkLoopHeads states state) =
        Except.ok (linkLoopHeads middle before[place]) := by
    rw [isState]
    dsimp only
    rw [linksEnd]
    rfl
  exact ⟨_, stepped, upTo.step numbered inBounds stepped⟩

section Framed

variable
  {states : Array State}
  (framed : FramedBy draft states)

include framed

/-- The starts of left-recursive rules are read and marked. -/
theorem takes_markStarts :
    Takes
      (decodeMarks (stateReferenceOf states .ruleStart) ({ · with leftRecursiveRule := true })
        states)
      (Draft.encodeSection draft.leftRecursive.toList fun start => [Draft.encodeNumber start])
      (markStarts draft.leftRecursive.toList states) := by
  refine takes_decodeMarks fun start member => ?_
  exact framed.stateReferenceOf sound
    (sound.leftRecursive start (Array.mem_toList_iff.mp member))

/-- The rules of a sound draft are read. -/
theorem takes_rules :
    Takes (decodeRules draft.kind states)
      (Draft.encodeSection draft.rules.toList (Draft.encodeRuleEntry draft.kind))
      draft.ruleEntries := by
  refine takes_decodeRules fun rule member => ?_
  exact framed.stateReferenceOf sound (sound.ruleStart rule (Array.mem_toList_iff.mp member))

/-- The modes of a sound draft are read. -/
theorem takes_modes :
    Takes (decodeModes states)
      (Draft.encodeSection draft.modes.toList fun start => [Draft.encodeNumber start])
      draft.modes.toList := by
  refine takes_decodeModes fun mode member => ?_
  exact framed.stateReferenceOf sound (sound.mode mode (Array.mem_toList_iff.mp member))

/-- The edges of a sound draft are read. -/
theorem takes_edges
    (hasEdges : draft.HasEdges edges) :
    Takes
      (Decoder.counted fun _ =>
        decodeEdge
          ⟨states, (draft.sets.toList.map IntervalSet.ofRanges).toArray, draft.ruleEntries.length⟩)
      (Draft.encodeSection draft.edges.toList Draft.encodeEdge) edges := by
  refine Takes.counted hasEdges.length_eq.symm ?_
  intro place given entry isGiven isEntry
  obtain ⟨inGiven, rfl⟩ := List.getElem?_eq_some_iff.mp isGiven
  obtain ⟨inEntries, rfl⟩ := List.getElem?_eq_some_iff.mp isEntry
  have encodes := List.Forall₂.get hasEdges inGiven inEntries
  have sets :
      (draft.sets.toList.map IntervalSet.ofRanges).toArray =
        draft.sets.map IntervalSet.ofRanges := by
    rw [← Array.toList_map, Array.toArray_toList]
  exact takes_decodeEdge sound framed sets draft.length_ruleEntries encodes
    (List.mem_of_getElem? isEntry)

/-- The decisions of a sound draft are read. -/
theorem takes_decisions :
    Takes (decodeDecisions states)
      (Draft.encodeSection draft.decisions.toList fun number => [Draft.encodeNumber number])
      draft.decisions.toList := by
  refine takes_decodeDecisions fun number member => ?_
  obtain ⟨kind, isOfKind, isDecision⟩ := sound.decision number (Array.mem_toList_iff.mp member)
  obtain ⟨state, present, isKind⟩ := framed.of_isOfKind isOfKind
  have inBounds : number < draft.states.size :=
    framed.size ▸ (Array.getElem?_eq_some_iff.mp present).1
  exact ⟨sound.fitsStates.of_lt inBounds, state, present, isKind ▸ isDecision⟩

end Framed

/-- The lexer actions of a sound draft are read. -/
theorem takes_lexerAction
    {action : LexerAction}
    (member : action ∈ draft.lexerActions) :
    Takes (decodeLexerAction draft.modes.toList.length) (Draft.encodeLexerAction action)
      action := by
  refine takes_decodeLexerAction fun mode isMode => ?_
  have inModes := sound.lexerMode action member mode isMode
  exact ⟨sound.fitsModes.of_lt inModes, by simpa using inModes⟩

end Drafted

end Network

end GrammarService
