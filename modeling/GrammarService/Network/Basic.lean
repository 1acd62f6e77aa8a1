import GrammarService.IntervalSet

namespace GrammarService

/-!
# Transition networks

A grammar compiles to a network of states. Every rule has a start and a stop state, and edges
lead from state to state: some consume a symbol, the others (epsilon edges) are free. A lexer
walks its network over characters, a parser over token types.

Both kinds of symbol are integers. The end of the input is the symbol `endOfInput`, below every
character and every token type a grammar can define.
-/

/-- The symbol that stands for the end of the input. -/
def endOfInput : Int :=
  -1

/-- The smallest token type a grammar can define. -/
def minTokenType : Int :=
  1

/-- The largest token type that ranges, sets and negated sets match. -/
def maxSetTokenType : Int :=
  0xFFFF

/-- The largest code point of a character. -/
def maxCharacter : Int :=
  0x10FFFF

/-- What a grammar recognizes. -/
inductive GrammarKind
  | lexer
  | parser
  deriving Repr, DecidableEq, Inhabited

namespace GrammarKind

/-- The name of the kind in messages. -/
def name : GrammarKind → String
  | .lexer => "Lexer"
  | .parser => "Parser"

end GrammarKind

/-- The part a state plays in its network. -/
inductive StateKind
  /-- A number without a state. -/
  | invalid
  | basic
  | ruleStart
  | blockStart
  | plusBlockStart
  | starBlockStart
  | tokenStart
  | ruleStop
  | blockEnd
  | starLoopBack
  | starLoopEntry
  | plusLoopBack
  | loopEnd
  deriving Repr, DecidableEq, Inhabited

namespace StateKind

/-- The name of the kind in messages. -/
def name : StateKind → String
  | .invalid => "Invalid"
  | .basic => "Basic"
  | .ruleStart => "RuleStart"
  | .blockStart => "BlockStart"
  | .plusBlockStart => "PlusBlockStart"
  | .starBlockStart => "StarBlockStart"
  | .tokenStart => "TokenStart"
  | .ruleStop => "RuleStop"
  | .blockEnd => "BlockEnd"
  | .starLoopBack => "StarLoopBack"
  | .starLoopEntry => "StarLoopEntry"
  | .plusLoopBack => "PlusLoopBack"
  | .loopEnd => "LoopEnd"

/-- The number of the kind in an encoded network. -/
def code : StateKind → Int
  | .invalid => 0
  | .basic => 1
  | .ruleStart => 2
  | .blockStart => 3
  | .plusBlockStart => 4
  | .starBlockStart => 5
  | .tokenStart => 6
  | .ruleStop => 7
  | .blockEnd => 8
  | .starLoopBack => 9
  | .starLoopEntry => 10
  | .plusLoopBack => 11
  | .loopEnd => 12

/-- Every kind a present state can have. -/
def present : List StateKind :=
  [.basic, .ruleStart, .blockStart, .plusBlockStart, .starBlockStart, .tokenStart, .ruleStop,
    .blockEnd, .starLoopBack, .starLoopEntry, .plusLoopBack, .loopEnd]

/-- The kind of a present state with the given number, if there is one. -/
def ofCode? (code : Int) : Option StateKind :=
  present.find? fun kind => kind.code = code

/-- Whether states of this kind may have to choose between several edges. -/
def isDecision : StateKind → Bool
  | .blockStart | .plusBlockStart | .starBlockStart
  | .tokenStart | .starLoopEntry | .plusLoopBack => true
  | _ => false

/-- Whether states of this kind open a block that a block end closes. -/
def isBlockStart : StateKind → Bool
  | .blockStart | .plusBlockStart | .starBlockStart => true
  | _ => false

end StateKind

/-- A way from one state to another, or into a rule and back. -/
inductive Edge
  /-- A free step; `outermostReturn` names the left-recursive rule whose invocation at precedence
  zero this edge returns from, if it is such an edge. -/
  | epsilon (target : Nat) (outermostReturn : Option Nat)
  /-- Consumes a symbol from `first` through `last`. -/
  | range (target : Nat) (first last : Int)
  /-- Enters the rule that starts at `target`, to go on at `follow` once it has returned. -/
  | call (target rule : Nat) (precedence : Int) (follow : Nat)
  /-- A free step guarded by a condition written in the grammar. -/
  | predicate (target rule : Nat) (index : Int) (contextDependent : Bool)
  /-- Consumes exactly `label`. -/
  | atom (target : Nat) (label : Int)
  /-- A free step with a side effect; a rule number below zero was given as `none`. -/
  | action (target : Nat) (rule : Option Nat) (index : Int) (contextDependent : Bool)
  /-- Consumes a member of `symbols`. -/
  | set (target : Nat) (symbols : IntervalSet)
  /-- Consumes any symbol but a member of `symbols`. -/
  | notSet (target : Nat) (symbols : IntervalSet)
  /-- Consumes any symbol. -/
  | wildcard (target : Nat)
  /-- A free step that needs an invocation precedence of at most `precedence`. -/
  | precedence (target : Nat) (precedence : Int)
  deriving Repr, DecidableEq, Inhabited

namespace Edge

/-- The state the edge leads to. -/
def target : Edge → Nat
  | .epsilon target _ => target
  | .range target _ _ => target
  | .call target _ _ _ => target
  | .predicate target _ _ _ => target
  | .atom target _ => target
  | .action target _ _ _ => target
  | .set target _ => target
  | .notSet target _ => target
  | .wildcard target => target
  | .precedence target _ => target

/-- Whether the edge consumes no symbol. -/
def isEpsilon : Edge → Bool
  | .epsilon .. | .call .. | .predicate .. | .action .. | .precedence .. => true
  | _ => false

/--
Whether the edge consumes `symbol`.

Negated sets and wildcards consume nothing outside the vocabulary `low` through `high`.
-/
def consumes
    (edge : Edge)
    (symbol low high : Int) :
    Bool :=
  match edge with
  | .atom _ label => label == symbol
  | .range _ first last => decide (first ≤ symbol ∧ symbol ≤ last)
  | .set _ symbols => symbols.contains symbol
  | .notSet _ symbols =>
      decide (low ≤ symbol ∧ symbol ≤ high) && !symbols.contains symbol
  | .wildcard _ => decide (low ≤ symbol ∧ symbol ≤ high)
  | _ => false

/-- The symbols the edge lists, if it lists any: free edges, negated sets and wildcards do not. -/
def label? : Edge → Option IntervalSet
  | .atom _ label => some (IntervalSet.singleton label)
  | .range _ first last => some (IntervalSet.empty.addRange first last)
  | .set _ symbols => some symbols
  | _ => none

/-- Whether a state that has one of the two edges has no use for the other. -/
def repeats
    (present additional : Edge) :
    Bool :=
  present.target == additional.target &&
    ((present.isEpsilon && additional.isEpsilon) ||
      match present.label?, additional.label? with
      | some known, some label => known == label
      | _, _ => false)

end Edge

/-- What a lexer does when it has accepted a token. -/
inductive LexerAction
  | channel (value : Int)
  /-- An action in a programming language, which has no effect. -/
  | custom (rule index : Int)
  | mode (mode : Nat)
  | more
  | popMode
  | pushMode (mode : Nat)
  | skip
  | type (value : Int)
  deriving Repr, DecidableEq, Inhabited

namespace Network

/-- A state and the edges that leave it. -/
structure State where
  number : Nat
  kind : StateKind
  /-- The rule the state belongs to, if it belongs to one. -/
  rule : Option Nat
  edges : List Edge
  /-- Whether every edge that was added is free. -/
  epsilonOnly : Bool
  nonGreedy : Bool
  /-- On rule starts: whether the rule was rewritten from direct left recursion. -/
  leftRecursiveRule : Bool
  /-- On star loop entries: whether the choice is between another operator and the rule's end. -/
  precedenceDecision : Bool
  /-- On block starts: the end of the block. -/
  endState : Option Nat
  /-- On block ends: the start of the block. -/
  startState : Option Nat
  /-- On loop ends, plus block starts and star loop entries: the state that loops back. -/
  loopBackState : Option Nat
  decision : Option Nat
  deriving Repr, DecidableEq, Inhabited

namespace State

/-- A state without edges, links or marks. -/
def bare
    (number : Nat)
    (kind : StateKind)
    (rule : Option Nat) :
    State where
  number := number
  kind := kind
  rule := rule
  edges := []
  epsilonOnly := false
  nonGreedy := false
  leftRecursiveRule := false
  precedenceDecision := false
  endState := none
  startState := none
  loopBackState := none
  decision := none

/--
Add an edge after the others, unless an edge that is there already repeats it.

The mark `epsilonOnly` follows every edge that is offered, also one that is not kept.
-/
def addEdge
    (state : State)
    (edge : Edge) :
    State :=
  { state with
    epsilonOnly :=
      if state.edges.isEmpty then
        edge.isEpsilon
      else
        state.epsilonOnly && edge.isEpsilon
    edges :=
      if state.edges.any fun present => present.repeats edge then
        state.edges
      else
        state.edges ++ [edge] }

end State

end Network

/-- The network of a grammar. -/
structure Network where
  kind : GrammarKind
  maxTokenType : Int
  states : Array Network.State
  /-- The start state of each rule. -/
  ruleStarts : Array Nat
  /-- The stop state of each rule. -/
  ruleStops : Array Nat
  /-- Lexers only: the token type each rule produces. -/
  ruleTokenTypes : Array Int
  /-- Lexers only: the state each mode starts in. -/
  modeStarts : Array Nat
  /-- The state of each decision. -/
  decisions : Array Nat
  lexerActions : Array LexerAction
  deriving Repr, DecidableEq, Inhabited

namespace Network

/-- The state with the given number; a number without a state gives an invalid state. -/
def state
    (network : Network)
    (number : Nat) :
    State :=
  network.states.getD number (State.bare number .invalid none)

/-- The number of rules. -/
def ruleCount (network : Network) : Nat :=
  network.ruleStarts.size

/-- A power of two that is not below a power of a number. -/
def powerBound (base exponent : Nat) : Nat :=
  1 <<< ((Nat.log2 base + 1) * exponent)

/--
A bound on the length of a way along free edges that never comes back to the same state with the
same returns, as long as no rule is entered again inside itself.
-/
def walkBound (network : Network) : Nat :=
  powerBound (network.states.size + 2) (network.ruleCount + 3)

/-- The state that goes on after the rule called from `caller`, if its first edge is a call. -/
def followOf?
    (network : Network)
    (caller : Nat) :
    Option Nat :=
  match (network.state caller).edges.head? with
  | some (.call _ _ _ follow) => some follow
  | _ => none

/-- Whether the rule was rewritten from direct left recursion. -/
def isLeftRecursive
    (network : Network)
    (rule : Nat) :
    Bool :=
  (network.state (network.ruleStarts.getD rule 0)).leftRecursiveRule

end Network

end GrammarService
