import GrammarService.Network.Decode

namespace GrammarService

/-!
# Drafting an encoded network

A `NetworkDraft` is put together piece by piece, as a grammar compiler does, and then encoded as
the list of integers that `Network.decode` reads. Numbers in the encoding are signed and 32 bits
wide; greater ones wrap around.
-/

namespace Network

/-- A state of a draft; `link` is the other end of its loop or block, once it is known. -/
structure DraftState where
  kind : StateKind
  rule : Option Nat
  link : Option Nat
  deriving Repr, DecidableEq

/-- An edge of a draft, as it is encoded: a type, two ends and three arguments. -/
structure DraftEdge where
  source : Nat
  target : Nat
  type : Int
  first : Int
  second : Int
  third : Int
  deriving Repr, DecidableEq

/-- The parts of a network in the order in which they were added. -/
structure Draft where
  kind : GrammarKind
  maxTokenType : Int
  states : Array DraftState
  /-- The start states of left-recursive rules. -/
  leftRecursive : Array Nat
  /-- The start state and the token type of each rule. -/
  rules : Array (Nat × Int)
  modes : Array Nat
  sets : Array (List (Int × Int))
  edges : Array DraftEdge
  decisions : Array Nat
  lexerActions : Array LexerAction
  deriving Repr, DecidableEq

namespace Draft

/-- A draft without any parts. -/
def empty
    (kind : GrammarKind)
    (maxTokenType : Int) :
    Draft where
  kind := kind
  maxTokenType := maxTokenType
  states := #[]
  leftRecursive := #[]
  rules := #[]
  modes := #[]
  sets := #[]
  edges := #[]
  decisions := #[]
  lexerActions := #[]

/-- Add a state, whose number is the number of states before it. -/
def addState
    (draft : Draft)
    (kind : StateKind)
    (rule : Option Nat) :
    Draft :=
  { draft with states := draft.states.push ⟨kind, rule, none⟩ }

/-- Name the block end of a block start, or the loop-back state of a loop end. -/
def linkState
    (draft : Draft)
    (state reference : Nat) :
    Draft :=
  { draft with states := draft.states.modify state ({ · with link := some reference }) }

/-- Add a rule, whose index is the number of rules before it. -/
def addRule
    (draft : Draft)
    (start : Nat)
    (tokenType : Int) :
    Draft :=
  { draft with rules := draft.rules.push (start, tokenType) }

/-- Mark the rule that starts at `start` as left-recursive. -/
def markLeftRecursive
    (draft : Draft)
    (start : Nat) :
    Draft :=
  { draft with leftRecursive := draft.leftRecursive.push start }

/-- Add a mode. -/
def addMode
    (draft : Draft)
    (start : Nat) :
    Draft :=
  { draft with modes := draft.modes.push start }

/-- Add a decision. -/
def addDecision
    (draft : Draft)
    (state : Nat) :
    Draft :=
  { draft with decisions := draft.decisions.push state }

/-- Add a lexer action, whose index is the number of actions before it. -/
def addLexerAction
    (draft : Draft)
    (action : LexerAction) :
    Draft :=
  { draft with lexerActions := draft.lexerActions.push action }

/-- A number as a signed integer of 32 bits. -/
def encodeNumber (number : Nat) : Int :=
  (number : Int).bmod 4294967296

/-- A rule number, or -1 for a state outside all rules. -/
def encodeRule (rule : Option Nat) : Int :=
  match rule with
  | some rule => encodeNumber rule
  | none => -1

/-- Add an edge with the given type and arguments. -/
def addEdge
    (draft : Draft)
    (source target : Nat)
    (type first second third : Int) :
    Draft :=
  { draft with edges := draft.edges.push ⟨source, target, type, first, second, third⟩ }

/-- Add a free edge. -/
def addEpsilon
    (draft : Draft)
    (source target : Nat) :
    Draft :=
  draft.addEdge source target 1 0 0 0

/-- Add an edge that consumes a symbol from `first` through `last`. -/
def addRange
    (draft : Draft)
    (source target : Nat)
    (first last : Int) :
    Draft :=
  draft.addEdge source target 2 first last 0

/-- Add a call of `rule`, which starts at `start`, to go on at `follow`. -/
def addCall
    (draft : Draft)
    (source start rule : Nat)
    (precedence : Int)
    (follow : Nat) :
    Draft :=
  draft.addEdge source follow 3 (encodeNumber start) (encodeNumber rule) precedence

/-- Add an edge that consumes exactly `label`. -/
def addAtom
    (draft : Draft)
    (source target : Nat)
    (label : Int) :
    Draft :=
  if label = endOfInput then
    draft.addEdge source target 5 0 0 1
  else
    draft.addEdge source target 5 label 0 0

/-- Add an edge with a side effect. -/
def addAction
    (draft : Draft)
    (source target : Nat)
    (rule : Option Nat)
    (index : Int) :
    Draft :=
  draft.addEdge source target 6 (encodeRule rule) index 0

/-- Add a symbol set and an edge of the given type that refers to it. -/
def addSetEdge
    (draft : Draft)
    (source target : Nat)
    (type : Int)
    (ranges : List (Int × Int)) :
    Draft :=
  { draft with sets := draft.sets.push ranges }.addEdge source target type draft.sets.size 0 0

/-- Add an edge that consumes a member of `ranges`. -/
def addSet
    (draft : Draft)
    (source target : Nat)
    (ranges : List (Int × Int)) :
    Draft :=
  draft.addSetEdge source target 7 ranges

/-- Add an edge that consumes any symbol outside `ranges`. -/
def addNotSet
    (draft : Draft)
    (source target : Nat)
    (ranges : List (Int × Int)) :
    Draft :=
  draft.addSetEdge source target 8 ranges

/-- Add an edge that consumes any symbol. -/
def addWildcard
    (draft : Draft)
    (source target : Nat) :
    Draft :=
  draft.addEdge source target 9 0 0 0

/-- Add a free edge that needs an invocation precedence of at most `precedence`. -/
def addPrecedence
    (draft : Draft)
    (source target : Nat)
    (precedence : Int) :
    Draft :=
  draft.addEdge source target 10 precedence 0 0

/-- A section: its length and then its items. -/
def encodeSection
    (items : List α)
    (encode : α → List Int) :
    List Int :=
  (items.length : Int) :: items.flatMap encode

/-- A state: its kind, its rule, and the other end of its loop or block if it has one. -/
def encodeState (state : DraftState) : List Int :=
  let link :=
    if state.kind = .loopEnd || state.kind.isBlockStart then
      [encodeRule state.link]
    else
      []
  [state.kind.code, encodeRule state.rule] ++ link

/-- A rule: its start state and, for lexers, its token type. -/
def encodeRuleEntry
    (kind : GrammarKind)
    (rule : Nat × Int) :
    List Int :=
  match kind with
  | .lexer => [encodeNumber rule.1, rule.2]
  | .parser => [encodeNumber rule.1]

/-- A symbol set: its number of ranges, no end of input, and the ranges. -/
def encodeSet (ranges : List (Int × Int)) : List Int :=
  [(ranges.length : Int), 0] ++ ranges.flatMap fun (first, last) => [first, last]

/-- An edge: its ends, its type and its arguments. -/
def encodeEdge (edge : DraftEdge) : List Int :=
  [encodeNumber edge.source, encodeNumber edge.target, edge.type, edge.first, edge.second,
    edge.third]

/-- A lexer action: its type and two arguments. -/
def encodeLexerAction : LexerAction → List Int
  | .channel value => [0, value, 0]
  | .custom rule index => [1, rule, index]
  | .mode mode => [2, encodeNumber mode, 0]
  | .more => [3, 0, 0]
  | .popMode => [4, 0, 0]
  | .pushMode mode => [5, encodeNumber mode, 0]
  | .skip => [6, 0, 0]
  | .type value => [7, value, 0]

/-- The number of a kind of grammar. -/
def encodeKind : GrammarKind → Int
  | .lexer => 0
  | .parser => 1

/-- Encode the draft as a list of integers. -/
def encode (draft : Draft) : List Int :=
  [encodingVersion, encodeKind draft.kind, draft.maxTokenType] ++
    encodeSection draft.states.toList encodeState ++
    [0] ++
    encodeSection draft.leftRecursive.toList (fun start => [encodeNumber start]) ++
    encodeSection draft.rules.toList (encodeRuleEntry draft.kind) ++
    encodeSection draft.modes.toList (fun start => [encodeNumber start]) ++
    encodeSection draft.sets.toList encodeSet ++
    encodeSection draft.edges.toList encodeEdge ++
    encodeSection draft.decisions.toList (fun state => [encodeNumber state]) ++
    match draft.kind with
    | .lexer => encodeSection draft.lexerActions.toList encodeLexerAction
    | .parser => []

end Draft

end Network

end GrammarService
