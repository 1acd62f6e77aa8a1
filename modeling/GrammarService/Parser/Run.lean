import GrammarService.Grammar
import GrammarService.ParseTree
import GrammarService.Parser.Expected
import GrammarService.Prediction.Predict

namespace GrammarService

/-!
# Walking a parser network

A rule is parsed by walking its network from state to state: an edge is chosen by prediction where
there are several, tokens are consumed where an edge asks for one, and rules are entered and left.
Each rule invocation has a context, which is at the same time a node of the tree being built. The
walk stops at the first syntax error.

A left-recursive rule is parsed as a loop: each time round, the context so far becomes the first
child of a new context of the same rule, and only the last one joins the tree.
-/

namespace Parser

/-- Why a walk cannot go on for a reason that lies in the network. -/
inductive Fault
  | noProgress
  | noRecursionToLeave
  | noInvocationToLeave
  | notInvoked
  | noEdge
  | noRecursion
  | noDecision
  | noAutomaton
  | unsettled
  /-- Stands for the outcome of a walk that never ends, which has none. -/
  | endless
  deriving Repr, DecidableEq

namespace Fault

/-- The fault in words. -/
def message : Fault → String
  | .noProgress => "parser stopped making progress"
  | .noRecursionToLeave => "recursion context stack underflow"
  | .noInvocationToLeave => "returned from the outermost rule"
  | .notInvoked => "rule returned to a state that did not invoke it"
  | .noEdge => "state has no transition to follow"
  | .noRecursion => "precedence loop outside a recursive rule"
  | .noDecision => "decision state has no decision number"
  | .noAutomaton => "decision has no prediction cache"
  | .unsettled => "full-context prediction did not settle"
  | .endless => "parser never ends"

end Fault

/-- Why a walk ended before the end of its rule. -/
inductive Failure
  | syntaxError (error : SyntaxError)
  | fault (fault : Fault)
  deriving Repr, DecidableEq

/-- Where a context hangs in the chain of rule invocations. -/
structure Link where
  parent : Option Nat
  /-- The state that invoked the rule. -/
  caller : Option Nat
  deriving Repr, DecidableEq, Inhabited

/-- A walk in progress. Contexts are numbered; `nodes` and `links` are indexed by context. -/
structure Run (σ : Type) where
  tokens : TokenStream σ
  cache : PredictionCache
  nodes : Array ParseTree.RuleNode
  links : Array Link
  context : Nat
  state : Nat
  position : Nat
  /-- The precedences of the left-recursive invocations, innermost first, above a zero. -/
  precedences : List Int
  /-- What the left-recursive invocations return to, innermost first. -/
  recursions : List Link
  /-- The steps since a token was consumed. -/
  idleSteps : Nat

/-- A step of a walk. What happened before a failure stays. -/
abbrev Walk (σ : Type) :=
  ExceptT Failure (StateM (Run σ))

variable {σ : Type} [TokenSource σ]

/-- Fail for a reason that lies in the network. -/
def fail (fault : Fault) : Walk σ α :=
  throw (.fault fault)

/-- Fail with a syntax error at a token. -/
def reject
    (token : Token)
    (message : String) :
    Walk σ α :=
  throw (.syntaxError (SyntaxError.atToken token message))

/-- The value that is there, or a fault. -/
def require
    (value? : Option α)
    (fault : Fault) :
    Walk σ α :=
  match value? with
  | some value => return value
  | none => fail fault

namespace Run

/-- The token to be consumed next. -/
def current (run : Run σ) : Token :=
  run.tokens.token run.position

/-- The link of a context. -/
def link
    (run : Run σ)
    (context : Nat) :
    Link :=
  run.links.getD context ⟨none, none⟩

/-- The rule of a context. -/
def ruleOf
    (run : Run σ)
    (context : Nat) :
    Nat :=
  (run.nodes.getD context ⟨0, #[]⟩).rule

/-- The precedence of the innermost left-recursive invocation. -/
def precedence (run : Run σ) : Int :=
  run.precedences.headD 0

/-- Add a context without children. -/
def addContext
    (run : Run σ)
    (link : Link)
    (rule : Nat) :
    Run σ :=
  { run with
    nodes := run.nodes.push ⟨rule, #[]⟩
    links := run.links.push link }

/-- Make a context the last child of another one. -/
def attach
    (run : Run σ)
    (parent child : Nat) :
    Run σ :=
  { run with nodes := ParseTree.addChild run.nodes parent (.rule child) }

/-- Go to a state in a context whose rule is not left-recursive; the context joins the tree. -/
def enterRule
    (run : Run σ)
    (context state : Nat) :
    Run σ :=
  let run := { run with state := state, context := context }
  match (run.link context).parent with
  | some parent => run.attach parent context
  | none => run

/-- Go to a state in a context whose rule is left-recursive. -/
def enterRecursion
    (run : Run σ)
    (context state : Nat)
    (precedence : Int) :
    Run σ :=
  { run with
    recursions := run.link context :: run.recursions
    precedences := precedence :: run.precedences
    state := state
    context := context }

/-- Put the current context into another one as its first child and go on in that one. -/
def wrapContext
    (run : Run σ)
    (context ruleStart : Nat) :
    Run σ :=
  let previous := run.context
  let run :=
    { run with
      links := run.links.setIfInBounds previous ⟨some context, some ruleStart⟩
      context := context }
  run.attach context previous

/-- Leave a left-recursive rule; its last context joins the tree below `parent`. -/
def leaveRecursion
    (run : Run σ)
    (parent : Option Nat) :
    Run σ :=
  let result := run.context
  let run :=
    { run with
      precedences := run.precedences.tail
      links := run.links.modify result fun link => { link with parent := parent } }
  match parent with
  | some parent => { run.attach parent result with context := parent }
  | none => run

/-- The states that a chain of `count` contexts returns to, outermost first, before `inner`. -/
def returnStatesFrom
    (run : Run σ)
    (network : Network) :
    (count : Nat) → (context : Nat) → (inner : List Nat) → List Nat
  | 0, _, inner => inner
  | count + 1, context, inner =>
      match run.links[context]? with
      | some ⟨some parent, some caller⟩ =>
          let states :=
            match network.followOf? caller with
            | some follow => follow :: inner
            | none => inner
          returnStatesFrom run network count parent states
      | _ => inner

/-- The states that the current rule invocations return to, outermost first. -/
def returnStates
    (run : Run σ)
    (network : Network) :
    List Nat :=
  run.returnStatesFrom network (run.links.size + 1) run.context []

/-- Add the token types behind the rules of a chain of `count` contexts, for as long as a rule can
end there; `following` are those behind the rule left last. -/
def expectedBehind
    (run : Run σ)
    (network : Network) :
    (count : Nat) → (context : Option Nat) → (following expected : IntervalSet) → IntervalSet
  | 0, _, _, expected => expected
  | count + 1, context, following, expected =>
      let follow :=
        match context with
        | some context => ((run.link context).caller).bind network.followOf?
        | none => none
      match follow with
      | some follow =>
          if following.contains ruleEnd then
            let next := nextTokens network follow
            expectedBehind run network count
              (context.bind fun context => (run.link context).parent) next
              (expected.union (next.erase ruleEnd))
          else
            expected
      | none => if following.contains ruleEnd then expected.add endOfInput else expected

/-- The token types that could come next at a state, with the current rule invocations. -/
def expectedAt
    (run : Run σ)
    (network : Network)
    (state : Nat) :
    IntervalSet :=
  let following := nextTokens network state
  if following.contains ruleEnd then
    run.expectedBehind network (run.links.size + 1) (some run.context) following
      (following.erase ruleEnd)
  else
    following

/-- The token types that could come next. -/
def expected
    (run : Run σ)
    (network : Network) :
    IntervalSet :=
  run.expectedAt network run.state

end Run

/-- Some token types in words: a single name, or all names in braces. -/
def describeTypes
    (grammar : ParserGrammar)
    (types : IntervalSet) :
    String :=
  match types.members.map grammar.vocabulary.displayName with
  | [single] => single
  | names => "\x7b" ++ String.intercalate ", " names ++ "\x7d"

/-- The type of the visible token behind the current one. -/
def peekType : Walk σ Int := do
  let run ← get
  let (after, tokens) := run.tokens.nextVisible (run.position + 1)
  set { run with tokens := tokens }
  return (tokens.token after).type

/-- Fail because the current token is none of those expected. -/
def rejectMismatch (grammar : ParserGrammar) : Walk σ α := do
  let run ← get
  let expected := describeTypes grammar (run.expected grammar.network)
  reject run.current s!"mismatched input {run.current.quoted} expecting {expected}"

/-- Fail because the current token is one too many. -/
def rejectExtraneous (grammar : ParserGrammar) : Walk σ α := do
  let run ← get
  let expected := describeTypes grammar (run.expected grammar.network)
  reject run.current s!"extraneous input {run.current.quoted} expecting {expected}"

/-- Fail because a token is missing before the current one. -/
def rejectMissing (grammar : ParserGrammar) : Walk σ α := do
  let run ← get
  let expected := describeTypes grammar (run.expected grammar.network)
  reject run.current s!"missing {expected} at {run.current.quoted}"

/--
Fail because the current token cannot leave the current state.

A token before an expected one is extraneous. Where the token would be expected behind the state's
first edge, one is missing. Else it is a mismatch.
-/
def rejectCurrent (grammar : ParserGrammar) : Walk σ α := do
  let network := grammar.network
  let current := (← get).current.type
  if current ≠ endOfInput then
    let after ← peekType
    if ((← get).expected network).contains after then
      rejectExtraneous grammar
  let run ← get
  match (network.state run.state).edges.head? with
  | some first =>
      if (run.expectedAt network first.target).contains current then
        rejectMissing grammar
      else
        rejectMismatch grammar
  | none => rejectMismatch grammar

/-- Add the current token to the tree and move behind it, except at the end of the input. -/
def consume : Walk σ Unit :=
  modify fun run =>
    let token := run.current
    let (position, tokens) :=
      if token.isEnd then
        (run.position, run.tokens)
      else
        run.tokens.nextVisible (run.position + 1)
    { run with
      nodes := ParseTree.addChild run.nodes run.context (.token token)
      position := position
      tokens := tokens
      idleSteps := 0 }

/-- Consume the current token whatever it is, except at the end of the input. -/
def consumeAny (grammar : ParserGrammar) : Walk σ Unit := do
  if (← get).current.type < minTokenType then
    rejectCurrent grammar
  else
    consume

/--
Before a decision is predicted, see whether the current token can follow here at all. Where it
cannot, the error names the tokens that could.
-/
def checkCurrent (grammar : ParserGrammar) : Walk σ Unit := do
  let run ← get
  let network := grammar.network
  let next := nextTokens network run.state
  if next.contains run.current.type || next.contains ruleEnd then
    return
  let kind := (network.state run.state).kind
  if kind.isBlockStart || kind = .starLoopEntry then
    if !run.current.isEnd then
      if next.contains (← peekType) then
        rejectExtraneous grammar
    rejectMismatch grammar
  else if kind = .plusLoopBack || kind = .starLoopBack then
    rejectExtraneous grammar

/-- The automaton of a decision. -/
def automatonOf (decision : Nat) : Walk σ Automaton := do
  require (← get).cache.automata[decision]? .noAutomaton

/-- The setting of a prediction with an automaton. -/
def settingOf
    (network : Network)
    (automaton : Automaton)
    (precedence : Int) :
    Prediction.Setting where
  network := network
  precedenceRule :=
    if automaton.byPrecedence then (network.state automaton.decisionState).rule else none
  precedence := precedence

/-- Predict a decision without the real rule invocations. -/
def predictRemembered
    (network : Network)
    (decision : Nat) :
    Walk σ Prediction.Outcome := do
  let automaton ← automatonOf decision
  modifyGet fun run =>
    let setting := settingOf network automaton run.precedence
    let (outcome, memory, tokens) :=
      Prediction.predictRemembered setting ⟨run.cache.store, automaton⟩ run.tokens run.position
    (outcome,
      { run with
        tokens := tokens
        cache :=
          { store := memory.store
            automata := run.cache.automata.setIfInBounds decision memory.automaton } })

/-- Predict a decision with the real rule invocations. -/
def predictInContext
    (network : Network)
    (decision : Nat) :
    Walk σ Prediction.Outcome := do
  let automaton ← automatonOf decision
  modifyGet fun run =>
    let setting := settingOf network automaton run.precedence
    let (outcome, store, tokens) :=
      Prediction.predictInContext setting automaton.decisionState (run.returnStates network)
        run.cache.store run.tokens run.position
    (outcome, { run with tokens := tokens, cache := { run.cache with store := store } })

/-- Fail because no alternative matches the tokens from the current one through `offending`. -/
def rejectAlternatives (offending : Nat) : Walk σ α := do
  let run ← get
  let start := run.position
  let (text, tokens) :=
    if (run.tokens.token start).isEnd then
      (Token.endText, run.tokens)
    else
      run.tokens.text start offending
  set { run with tokens := tokens }
  reject (tokens.token offending)
    s!"no viable alternative at input '{Text.escapeBreaks text}'"

/-- The alternative, counted from 1, by which to leave a state with several edges. -/
def predict
    (network : Network)
    (state : Network.State) :
    Walk σ Nat := do
  let decision ← require state.decision .noDecision
  let outcome ←
    match ← predictRemembered network decision with
    | .needsFullContext => predictInContext network decision
    | settled => pure settled
  match outcome with
  | .predicted alternative => return alternative
  | .noViableAlternative offending => rejectAlternatives offending
  | .needsFullContext => fail .unsettled

/-- Open a new context when a precedence loop goes into another round. -/
def startRound
    (network : Network)
    (state : Network.State)
    (target : Nat) :
    Walk σ Unit := do
  if state.kind = .starLoopEntry && state.precedenceDecision &&
      (network.state target).kind ≠ .loopEnd then
    let run ← get
    let outer ← require run.recursions.head? .noRecursion
    let context := run.nodes.size
    let ruleStart := network.ruleStarts.getD (state.rule.getD 0) 0
    set ((run.addContext outer (run.ruleOf run.context)).wrapContext context ruleStart)

/-- Invoke a rule from a state. -/
def invokeRule
    (network : Network)
    (caller target rule : Nat)
    (precedence : Int) :
    Walk σ Unit :=
  modify fun run =>
    let context := run.nodes.size
    let run := run.addContext ⟨some run.context, some caller⟩ rule
    if (network.state target).leftRecursiveRule then
      run.enterRecursion context target precedence
    else
      run.enterRule context target

/-- Fail if an operator binds less tightly than the rule invocation allows. -/
def checkPrecedence
    (grammar : ParserGrammar)
    (highest : Int) :
    Walk σ Unit := do
  let run ← get
  if highest < run.precedence then
    let rule := grammar.ruleNames.getD (run.ruleOf run.context) "<unknown>"
    reject run.current
      ("rule " ++ rule ++ " failed predicate: \x7bprecpred(_ctx, " ++ toString highest ++
        ")\x7d?")

/-- Do what an edge asks for. -/
def crossEdge
    (grammar : ParserGrammar)
    (state : Network.State)
    (edge : Edge) :
    Walk σ Unit := do
  let network := grammar.network
  match edge with
  | .epsilon target _ => startRound network state target
  | .atom _ label =>
      if (← get).current.type = label then
        consume
      else
        rejectCurrent grammar
  | .range .. | .set .. | .notSet .. =>
      if edge.consumes (← get).current.type minTokenType maxSetTokenType then
        consumeAny grammar
      else
        rejectCurrent grammar
  | .wildcard _ => consumeAny grammar
  | .call target rule precedence _ =>
      invokeRule network state.number target rule precedence
  | .predicate .. | .action .. => return
  | .precedence _ highest => checkPrecedence grammar highest

/-- Leave a state that is not the end of a rule by one of its edges. -/
def leaveState (grammar : ParserGrammar) : Walk σ Unit := do
  let network := grammar.network
  let state := network.state (← get).state
  let alternative ←
    if 1 < state.edges.length then do
      checkCurrent grammar
      predict network state
    else
      pure 1
  let edge ← require state.edges[alternative - 1]? .noEdge
  crossEdge grammar state edge
  modify fun run => { run with state := edge.target }

/-- Leave a rule at its end, to go on behind its invocation. -/
def leaveRule (network : Network) : Walk σ Unit := do
  let run ← get
  let rule := (network.state run.state).rule
  let caller ←
    if rule.any network.isLeftRecursive then do
      match run.recursions with
      | [] => fail .noRecursionToLeave
      | outer :: recursions =>
          set ({ run with recursions := recursions }.leaveRecursion outer.parent)
          pure outer.caller
    else do
      let link := run.link run.context
      let parent ← require link.parent .noInvocationToLeave
      set { run with context := parent }
      pure link.caller
  let follow ← require (caller.bind network.followOf?) .notInvoked
  modify fun run => { run with state := follow }

/-- The number of steps without consuming a token after which a walk is given up. -/
def idleLimit (network : Network) : Nat :=
  max (network.states.size * 64) 100000

/-- Whether a rule was left whose invocation started the walk. -/
def atEnd (network : Network) : Walk σ Bool := do
  let run ← get
  return (network.state run.state).kind = .ruleStop && (run.link run.context).caller.isNone

/-- Take a step of a walk unless its first rule has ended, and say whether it has. -/
def advance (grammar : ParserGrammar) : Walk σ Bool := do
  modify fun run => { run with idleSteps := run.idleSteps + 1 }
  if idleLimit grammar.network < (← get).idleSteps then
    fail .noProgress
  if ← atEnd grammar.network then
    return true
  if (grammar.network.state (← get).state).kind = .ruleStop then
    leaveRule grammar.network
  else
    leaveState grammar
  return false

/--
What a walk comes to that goes on until its first rule has ended.

Nothing bounds its steps: the end of the input can be consumed again and again, and a walk that does
so forever comes to nothing.
-/
def Run.walk?
    (grammar : ParserGrammar)
    (run : Run σ) :
    Option (Except Failure Unit × Run σ) :=
  match (advance grammar).run.run run with
  | (.ok false, run) => run |>.walk? grammar
  | (.ok true, run) => some (.ok (), run)
  | (.error failure, run) => some (.error failure, run)
partial_fixpoint

/-- Walk on until the first rule has ended. -/
def walk (grammar : ParserGrammar) : Walk σ Unit :=
  ExceptT.mk fun run => (Run.walk? grammar run).getD (.error (.fault .endless), run)

/-- Parse a rule and return the root of its tree. -/
def parseRule
    (grammar : ParserGrammar)
    (rule : Nat) :
    Walk σ Nat := do
  let network := grammar.network
  let start := network.ruleStarts.getD rule 0
  let leftRecursive := (network.state start).leftRecursiveRule
  modify fun run =>
    let run := run.addContext ⟨none, none⟩ rule
    if leftRecursive then run.enterRecursion 0 start 0 else run.enterRule 0 start
  walk grammar
  if leftRecursive then
    let run ← get
    match run.recursions with
    | [] => fail .noRecursionToLeave
    | outer :: recursions =>
        set ({ run with recursions := recursions }.leaveRecursion outer.parent)
        return run.context
  else
    return (← get).context

/-- A walk about to begin at the first visible token. -/
def Run.start
    (tokens : TokenStream σ)
    (cache : PredictionCache) :
    Run σ :=
  let (position, tokens) := tokens.nextVisible 0
  { tokens := tokens
    cache := cache
    nodes := #[]
    links := #[]
    context := 0
    state := 0
    position := position
    precedences := [0]
    recursions := []
    idleSteps := 0 }

end Parser

end GrammarService
