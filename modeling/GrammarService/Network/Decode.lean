import GrammarService.Network.Basic

namespace GrammarService

/-!
# Reading an encoded network

An encoded network is a list of integers: a version, the kind of grammar, the largest token type,
and then counted sections for states, rules, modes, symbol sets, edges, decisions and, for lexers,
actions. Reading checks every reference, so that a network that was read has no state, rule, set
or mode number that leads nowhere.

What the encoding leaves out is derived: the edges by which rule stops return to the callers, the
links between the two ends of blocks and loops, and the mark on precedence decisions.
-/

namespace Network

/-- What is wrong with an encoded network whose numbers could all be read. -/
inductive Malformation
  | negativeCount (value : Int) (offset : Nat)
  | missingState (value : Int)
  | wrongKind (state : Nat) (found expected : StateKind)
  | missingRule (value : Int)
  | missingSet (value : Int)
  | noStopState (rule : Nat)
  | noEndState (state : Nat)
  | sharedBlockEnd (state : Nat)
  | notADecision (decision state : Nat)
  | missingMode (value : Int)
  deriving Repr, DecidableEq

namespace Malformation

/-- The fault in words. -/
def message : Malformation → String
  | .negativeCount value offset => s!"negative count {value} at offset {offset}"
  | .missingState value => s!"reference to missing state {value}"
  | .wrongKind state found expected =>
      s!"state {state} is {found.name}, expected {expected.name}"
  | .missingRule value => s!"reference to missing rule {value}"
  | .missingSet value => s!"reference to missing set {value}"
  | .noStopState rule => s!"rule {rule} has no stop state"
  | .noEndState state => s!"block start {state} has no end state"
  | .sharedBlockEnd state => s!"block end {state} is shared by several blocks"
  | .notADecision decision state =>
      s!"decision {decision} refers to non-decision state {state}"
  | .missingMode value => s!"lexer action refers to missing mode {value}"

end Malformation

/-- Why a list of integers is not an encoded network. -/
inductive DecodeError
  | unsupportedVersion (found : Int)
  | unknownGrammarType (value : Int)
  | truncated (offset : Nat)
  | unknownStateType (state : Nat) (value : Int)
  | unknownTransitionType (value : Int)
  | unknownLexerActionType (value : Int)
  | malformed (fault : Malformation)
  deriving Repr, DecidableEq

/-- The only version of the encoding. -/
def encodingVersion : Int :=
  4

namespace DecodeError

/-- The error in words. -/
def message : DecodeError → String
  | .unsupportedVersion found =>
      s!"Unsupported serialized ATN version {found} (expected {encodingVersion})."
  | .unknownGrammarType value => s!"Unknown grammar type {value}."
  | .truncated offset => s!"Serialized ATN ended unexpectedly at offset {offset}."
  | .unknownStateType state value => s!"Unknown state type {value} for state {state}."
  | .unknownTransitionType value => s!"Unknown transition type {value}."
  | .unknownLexerActionType value => s!"Unknown lexer action type {value}."
  | .malformed fault => s!"Malformed ATN: {fault.message}."

end DecodeError

/-- What is left to read, and how many integers were read before it. -/
structure Cursor where
  remaining : List Int
  offset : Nat
  deriving Repr, DecidableEq

/-- A reader of one part of an encoded network. -/
abbrev Decoder :=
  StateT Cursor (Except DecodeError)

namespace Decoder

/-- Give up with a fault of the network. -/
def malformed (fault : Malformation) : Decoder α :=
  throw (.malformed fault)

/-- Read one integer. -/
def integer : Decoder Int :=
  fun cursor =>
    match cursor.remaining with
    | [] => .error (.truncated cursor.offset)
    | value :: remaining => .ok (value, ⟨remaining, cursor.offset + 1⟩)

/-- Read a number of items, which is not negative. -/
def count : Decoder Nat := do
  let offset := (← get).offset
  let value ← integer
  if value < 0 then
    malformed (.negativeCount value offset)
  else
    return value.toNat

/-- Run `item` for each of `length` numbers from `next` on, in order. -/
def repeatFrom
    (item : Nat → Decoder α)
    (next : Nat) :
    (length : Nat) → Decoder (List α)
  | 0 => return []
  | length + 1 => do
      let first ← item next
      return first :: (← repeatFrom item (next + 1) length)

/-- Read a count and then that many items, each told its number. -/
def counted (item : Nat → Decoder α) : Decoder (List α) := do
  repeatFrom item 0 (← count)

end Decoder

/-- The number `value` stands for when it is not negative. -/
def index? (value : Int) : Option Nat :=
  if value < 0 then none else some value.toNat

/-- The state that `value` refers to. -/
def stateReference
    (states : Array State)
    (value : Int) :
    Except DecodeError Nat :=
  match index? value with
  | some number =>
      match states[number]? with
      | some state =>
          if state.kind = .invalid then
            .error (.malformed (.missingState value))
          else
            .ok number
      | none => .error (.malformed (.missingState value))
  | none => .error (.malformed (.missingState value))

/-- Insist that a state is of one kind. -/
def requireKind
    (states : Array State)
    (number : Nat)
    (expected : StateKind) :
    Except DecodeError Unit :=
  let found := (states.getD number (State.bare number .invalid none)).kind
  if found = expected then
    .ok ()
  else
    .error (.malformed (.wrongKind number found expected))

/-- The state of kind `expected` that `value` refers to. -/
def stateReferenceOf
    (states : Array State)
    (expected : StateKind)
    (value : Int) :
    Except DecodeError Nat := do
  let number ← stateReference states value
  requireKind states number expected
  return number

/-- The rule that `value` refers to. -/
def ruleReference
    (ruleCount : Nat)
    (value : Int) :
    Except DecodeError Nat :=
  match (index? value).filter (· < ruleCount) with
  | some rule => .ok rule
  | none => .error (.malformed (.missingRule value))

/-- The symbol set that `value` refers to. -/
def setReference
    (sets : Array IntervalSet)
    (value : Int) :
    Except DecodeError IntervalSet :=
  match (index? value).bind (sets[·]?) with
  | some symbols => .ok symbols
  | none => .error (.malformed (.missingSet value))

/-- The mode that `value` refers to. -/
def modeReference
    (modeCount : Nat)
    (value : Int) :
    Except DecodeError Nat :=
  match (index? value).filter (· < modeCount) with
  | some mode => .ok mode
  | none => .error (.malformed (.missingMode value))

/-- A state together with the number its encoding gives for the other end of its loop or block. -/
structure EncodedState where
  state : State
  link : Option Int

/-- Read the state with the given number. -/
def decodeState (number : Nat) : Decoder EncodedState := do
  let code ← Decoder.integer
  if code = StateKind.invalid.code then
    return ⟨State.bare number .invalid none, none⟩
  match StateKind.ofCode? code with
  | none => throw (.unknownStateType number code)
  | some kind =>
      let rule := index? (← Decoder.integer)
      let state := State.bare number kind rule
      if kind = .loopEnd || kind.isBlockStart then
        return ⟨state, some (← Decoder.integer)⟩
      else
        return ⟨state, none⟩

/-- Set the loop-back state of each loop end. -/
def linkLoopEnds
    (encoded : List EncodedState)
    (states : Array State) :
    Except DecodeError (Array State) :=
  encoded.foldlM
    (fun states entry =>
      match entry.link with
      | some value =>
          if entry.state.kind = .loopEnd then do
            let loopBack ← stateReference states value
            return states.modify entry.state.number
              ({ · with loopBackState := some loopBack })
          else
            return states
      | none => return states)
    states

/-- Set the block end of each block start. -/
def linkBlockStarts
    (encoded : List EncodedState)
    (states : Array State) :
    Except DecodeError (Array State) :=
  encoded.foldlM
    (fun states entry =>
      match entry.link with
      | some value =>
          if entry.state.kind.isBlockStart then do
            let blockEnd ← stateReferenceOf states .blockEnd value
            return states.modify entry.state.number
              ({ · with endState := some blockEnd })
          else
            return states
      | none => return states)
    states

/-- Read all states and link loop ends and block starts. -/
def decodeStates : Decoder (Array State) := do
  let encoded ← Decoder.counted decodeState
  let states := (encoded.map EncodedState.state).toArray
  let states ← linkLoopEnds encoded states
  linkBlockStarts encoded states

/-- Apply `mark` to each state of a counted list of references, checking each with `refer`. -/
def decodeMarks
    (refer : Int → Except DecodeError Nat)
    (mark : State → State)
    (states : Array State) :
    Decoder (Array State) := do
  let marked ← Decoder.counted fun _ => do
    refer (← Decoder.integer)
  return marked.foldl (fun states number => states.modify number mark) states

/-- The start state and, for lexers, the token type of each rule. -/
def decodeRules
    (kind : GrammarKind)
    (states : Array State) :
    Decoder (List (Nat × Option Int)) :=
  Decoder.counted fun _ => do
    let start ← stateReferenceOf states .ruleStart (← Decoder.integer)
    match kind with
    | .lexer => return (start, some (← Decoder.integer))
    | .parser => return (start, none)

/-- The last stop state of a rule. -/
def lastStopOf?
    (states : Array State)
    (rule : Nat) :
    Option Nat :=
  states.foldl
    (fun last state =>
      if state.kind = .ruleStop && state.rule == some rule then
        some state.number
      else
        last)
    none

/-- The stop state of each rule, lowest rule first. -/
def findStops
    (states : Array State)
    (ruleCount : Nat) :
    Except DecodeError (List Nat) :=
  (List.range ruleCount).mapM fun rule =>
    match lastStopOf? states rule with
    | some stop => .ok stop
    | none => .error (.malformed (.noStopState rule))

/-- Read the start state of each mode. -/
def decodeModes (states : Array State) : Decoder (List Nat) :=
  Decoder.counted fun _ => do
    stateReferenceOf states .tokenStart (← Decoder.integer)

/-- Read one symbol set: a number of ranges, a flag for the end of input, and the ranges. -/
def decodeSet : Decoder IntervalSet := do
  let ranges ← Decoder.count
  let withEnd ← Decoder.integer
  let start :=
    if withEnd ≠ 0 then IntervalSet.singleton endOfInput else IntervalSet.empty
  let intervals ← Decoder.repeatFrom
    (fun _ => do
      let first ← Decoder.integer
      let last ← Decoder.integer
      return (first, last))
    0 ranges
  return intervals.foldl (fun symbols (first, last) => symbols.addRange first last) start

/-- The tables that an encoded edge refers to. -/
structure EdgeTables where
  states : Array State
  sets : Array IntervalSet
  ruleCount : Nat

/-- The edge with the given type, target and three arguments. -/
def edgeOf
    (tables : EdgeTables)
    (type : Int)
    (target : Nat)
    (first second third : Int) :
    Except DecodeError Edge := do
  match type with
  | 1 => return .epsilon target none
  | 2 => return .range target (if third ≠ 0 then endOfInput else first) second
  | 3 =>
      let start ← stateReferenceOf tables.states .ruleStart first
      let rule ← ruleReference tables.ruleCount second
      return .call start rule third target
  | 4 =>
      let rule ← ruleReference tables.ruleCount first
      return .predicate target rule second (third ≠ 0)
  | 5 => return .atom target (if third ≠ 0 then endOfInput else first)
  | 6 => return .action target (index? first) second (third ≠ 0)
  | 7 => return .set target (← setReference tables.sets first)
  | 8 => return .notSet target (← setReference tables.sets first)
  | 9 => return .wildcard target
  | 10 => return .precedence target first
  | type => throw (.unknownTransitionType type)

/-- Read one edge with the state it leaves. -/
def decodeEdge (tables : EdgeTables) : Decoder (Nat × Edge) := do
  let source ← stateReference tables.states (← Decoder.integer)
  let target ← stateReference tables.states (← Decoder.integer)
  let type ← Decoder.integer
  let first ← Decoder.integer
  let second ← Decoder.integer
  let third ← Decoder.integer
  return (source, ← edgeOf tables type target first second third)

/-- Add edges to the states they leave, in order. -/
def addEdges
    (states : Array State)
    (edges : List (Nat × Edge)) :
    Array State :=
  edges.foldl
    (fun states (source, edge) => states.modify source fun state => state.addEdge edge)
    states

/--
The edges by which rules return: one from the stop of the called rule to the follow state of each
call, in the order of the calls.
-/
def returnEdges
    (states : Array State)
    (ruleStarts ruleStops : Array Nat) :
    List (Nat × Edge) :=
  states.toList.flatMap fun state =>
    state.edges.filterMap fun edge =>
      match edge with
      | .call _ rule precedence follow =>
          let start := ruleStarts.getD rule 0
          let leftRecursive :=
            (states.getD start (State.bare start .invalid none)).leftRecursiveRule
          let outermost :=
            if leftRecursive && precedence == 0 then some rule else none
          some (ruleStops.getD rule 0, .epsilon follow outermost)
      | _ => none

/-- Set the block start of the end that a block start names. -/
def linkBlockEnd
    (states : Array State)
    (state : State) :
    Except DecodeError (Array State) :=
  if state.kind.isBlockStart then
    match state.endState with
    | none => .error (.malformed (.noEndState state.number))
    | some blockEnd =>
        let taken :=
          (states.getD blockEnd (State.bare blockEnd .invalid none)).startState.isSome
        if taken then
          .error (.malformed (.sharedBlockEnd blockEnd))
        else
          .ok (states.modify blockEnd ({ · with startState := some state.number }))
  else
    .ok states

/-- The kind of state that a loop-back state of the given kind leads back to. -/
def loopHeadKind? : StateKind → Option StateKind
  | .plusLoopBack => some .plusBlockStart
  | .starLoopBack => some .starLoopEntry
  | _ => none

/-- Set the loop-back state of every loop head that a loop-back state leads to. -/
def linkLoopHeads
    (states : Array State)
    (state : State) :
    Array State :=
  match loopHeadKind? state.kind with
  | none => states
  | some head =>
      state.edges.foldl
        (fun states edge =>
          states.modify edge.target fun target =>
            if target.kind = head then
              { target with loopBackState := some state.number }
            else
              target)
        states

/-- Link the two ends of every block and loop, lowest state first. -/
def linkStates (states : Array State) : Except DecodeError (Array State) :=
  (List.range states.size).foldlM
    (fun states number => do
      let state := states.getD number (State.bare number .invalid none)
      let states ← linkBlockEnd states state
      return linkLoopHeads states state)
    states

/-- Read the state of each decision. -/
def decodeDecisions (states : Array State) : Decoder (List Nat) :=
  Decoder.counted fun decision => do
    let number ← stateReference states (← Decoder.integer)
    let kind := (states.getD number (State.bare number .invalid none)).kind
    if kind.isDecision then
      return number
    else
      Decoder.malformed (.notADecision decision number)

/-- Tell each decision state its number; a state listed twice keeps the last. -/
def numberDecisions
    (states : Array State)
    (decisions : List Nat) :
    Array State :=
  decisions.zipIdx.foldl
    (fun states (number, decision) =>
      states.modify number ({ · with decision := some decision }))
    states

/-- Read one lexer action: its type and two arguments. -/
def decodeLexerAction (modeCount : Nat) : Decoder LexerAction := do
  let type ← Decoder.integer
  let first ← Decoder.integer
  let second ← Decoder.integer
  match type with
  | 0 => return .channel first
  | 1 => return .custom first second
  | 2 => return .mode (← modeReference modeCount first)
  | 3 => return .more
  | 4 => return .popMode
  | 5 => return .pushMode (← modeReference modeCount first)
  | 6 => return .skip
  | 7 => return .type first
  | type => throw (.unknownLexerActionType type)

/--
Whether the state chooses between another operator of a left-recursive rule and the rule's end:
a star loop entry of such a rule whose last edge leads over a loop end straight to a rule stop.
-/
def decidesPrecedence
    (states : Array State)
    (ruleStarts : Array Nat)
    (state : State) :
    Bool :=
  let stateAt number := states.getD number (State.bare number .invalid none)
  let leftRecursive :=
    match state.rule.bind (ruleStarts[·]?) with
    | some start => (stateAt start).leftRecursiveRule
    | none => false
  let exitsRule :=
    match state.edges.getLast? with
    | none => false
    | some exit =>
        let loopEnd := stateAt exit.target
        loopEnd.kind = .loopEnd && loopEnd.epsilonOnly &&
          match loopEnd.edges.head? with
          | some first => (stateAt first.target).kind = .ruleStop
          | none => false
  state.kind = .starLoopEntry && leftRecursive && exitsRule

/-- Mark every state that decides on precedence. -/
def markPrecedenceDecisions
    (states : Array State)
    (ruleStarts : Array Nat) :
    Array State :=
  states.map fun state =>
    if decidesPrecedence states ruleStarts state then
      { state with precedenceDecision := true }
    else
      state

/-- Read the version and the kind of grammar. -/
def decodeHeader : Decoder GrammarKind := do
  let version ← Decoder.integer
  if version ≠ encodingVersion then
    throw (.unsupportedVersion version)
  match ← Decoder.integer with
  | 0 => return .lexer
  | 1 => return .parser
  | value => throw (.unknownGrammarType value)

/-- Read a whole network; what follows it is left alone. -/
def decoder : Decoder Network := do
  let kind ← decodeHeader
  let maxTokenType ← Decoder.integer
  let states ← decodeStates
  let states ← decodeMarks (stateReference states) ({ · with nonGreedy := true }) states
  let states ← decodeMarks (stateReferenceOf states .ruleStart)
    ({ · with leftRecursiveRule := true }) states
  let rules ← decodeRules kind states
  let ruleStarts := (rules.map Prod.fst).toArray
  let ruleStops := (← findStops states rules.length).toArray
  let modes ← decodeModes states
  let sets ← Decoder.counted fun _ => decodeSet
  let edges ← Decoder.counted fun _ =>
    decodeEdge ⟨states, sets.toArray, rules.length⟩
  let states := addEdges states edges
  let states := addEdges states (returnEdges states ruleStarts ruleStops)
  let states ← linkStates states
  let decisions ← decodeDecisions states
  let states := numberDecisions states decisions
  let lexerActions ←
    match kind with
    | .lexer => Decoder.counted fun _ => decodeLexerAction modes.length
    | .parser => pure []
  return {
    kind := kind
    maxTokenType := maxTokenType
    states := markPrecedenceDecisions states ruleStarts
    ruleStarts := ruleStarts
    ruleStops := ruleStops
    ruleTokenTypes := (rules.filterMap Prod.snd).toArray
    modeStarts := modes.toArray
    decisions := decisions.toArray
    lexerActions := lexerActions.toArray }

/-- Read a network from its encoding. -/
def decode (data : List Int) : Except DecodeError Network :=
  (decoder.run ⟨data, 0⟩).map Prod.fst

end Network

end GrammarService
