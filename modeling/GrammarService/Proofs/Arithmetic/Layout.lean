import GrammarService.Sample.Arithmetic
import GrammarService.Proofs.Parser.Progress

namespace GrammarService

/-!
# The network of arithmetic

The parser of arithmetic has 32 states. They are laid out here as decoding gives them, so that what
the states are like can be read off, and predictions can be computed from them.
-/

namespace Arithmetic

/-- A state whose edges are all free. -/
def passing
    (number : Nat)
    (kind : StateKind)
    (rule : Nat)
    (edges : List Edge) :
    Network.State :=
  { Network.State.bare number kind (some rule) with
    edges := edges
    epsilonOnly := true }

/-- A state that waits for a token. -/
def waiting
    (number rule target : Nat)
    (type : Int) :
    Network.State :=
  { Network.State.bare number .basic (some rule) with
    edges := [.atom target type] }

/-- The states of the network: `prog` is rule 0, `expr` is rule 1, and `atom` is rule 2. -/
def states : Array Network.State :=
  #[passing 0 .ruleStart 0 [.epsilon 6 none],
    { passing 1 .ruleStart 1 [.epsilon 9 none] with leftRecursiveRule := true },
    passing 2 .ruleStart 2 [.epsilon 24 none],
    .bare 3 .ruleStop (some 0),
    passing 4 .ruleStop 1
      [.epsilon 7 (some 1), .epsilon 19 none, .epsilon 23 none, .epsilon 30 (some 1)],
    passing 5 .ruleStop 2 [.epsilon 10 none],
    passing 6 .basic 0 [.call 1 1 0 7],
    waiting 7 0 8 endOfInput,
    passing 8 .basic 0 [.epsilon 3 none],
    passing 9 .basic 1 [.call 2 2 0 10],
    passing 10 .basic 1 [.epsilon 11 none],
    { passing 11 .starLoopEntry 1 [.epsilon 12 none, .epsilon 15 none] with
      precedenceDecision := true
      loopBackState := some 14
      decision := some 0 },
    { passing 12 .starBlockStart 1 [.epsilon 16 none, .epsilon 20 none] with
      endState := some 13
      decision := some 1 },
    { passing 13 .blockEnd 1 [.epsilon 14 none] with startState := some 12 },
    passing 14 .starLoopBack 1 [.epsilon 11 none],
    { passing 15 .loopEnd 1 [.epsilon 4 none] with loopBackState := some 14 },
    passing 16 .basic 1 [.precedence 17 3],
    waiting 17 1 18 star,
    passing 18 .basic 1 [.call 1 1 4 19],
    passing 19 .basic 1 [.epsilon 13 none],
    passing 20 .basic 1 [.precedence 21 2],
    waiting 21 1 22 plus,
    passing 22 .basic 1 [.call 1 1 3 23],
    passing 23 .basic 1 [.epsilon 13 none],
    { passing 24 .blockStart 2 [.epsilon 26 none, .epsilon 28 none] with
      endState := some 25
      decision := some 2 },
    { passing 25 .blockEnd 2 [.epsilon 5 none] with startState := some 24 },
    waiting 26 2 27 integer,
    passing 27 .basic 2 [.epsilon 25 none],
    waiting 28 2 29 leftParenthesis,
    passing 29 .basic 2 [.call 1 1 0 30],
    waiting 30 2 31 rightParenthesis,
    passing 31 .basic 2 [.epsilon 25 none]]

/-- The network. -/
def network : Network where
  kind := .parser
  maxTokenType := comment
  states := states
  ruleStarts := #[0, 1, 2]
  ruleStops := #[3, 4, 5]
  ruleTokenTypes := #[]
  modeStarts := #[]
  decisions := #[11, 12, 24]
  lexerActions := #[]

/-- Decoding the data of the parser gives the network as it is laid out. -/
theorem decode_encodedNetwork : Network.decode parser.encodedNetwork = .ok network := by
  have decoded : (Network.decode parser.encodedNetwork).toOption = some network := by
    decide +kernel
  cases found : Network.decode parser.encodedNetwork with
  | error cause => simp [found, Except.toOption] at decoded
  | ok other =>
      rw [found] at decoded
      exact congrArg Except.ok (Option.some.inj decoded)

/-- The grammar. -/
def grammar : ParserGrammar where
  name := "ExprParser"
  network := network
  ruleNames := #["prog", "expr", "atom"]
  vocabulary := ⟨literalNames.toArray, symbolicNames.toArray⟩

/-- The data of the parser defines the grammar. -/
theorem ofData_grammar : ParserGrammar.ofData "ExprParser" parser = .ok grammar := by
  simp only [ParserGrammar.ofData, networkOf, decode_encodedNetwork]
  rfl

/-! ## Predictions -/

/-- Whether to go on with an operator, by the precedence that it has to have. -/
def loopCases : List Prediction.Case :=
  [⟨0, star, 1⟩, ⟨0, plus, 1⟩, ⟨0, rightParenthesis, 2⟩, ⟨0, endOfInput, 2⟩,
    ⟨3, star, 1⟩, ⟨3, plus, 2⟩, ⟨3, rightParenthesis, 2⟩, ⟨3, endOfInput, 2⟩,
    ⟨4, star, 2⟩, ⟨4, plus, 2⟩, ⟨4, rightParenthesis, 2⟩, ⟨4, endOfInput, 2⟩]

/-- Which operator to go on with. -/
def operatorCases : List Prediction.Case :=
  [⟨0, star, 1⟩, ⟨0, plus, 2⟩, ⟨3, star, 1⟩]

/-- Which atom there is. -/
def atomCases : List Prediction.Case :=
  [⟨0, integer, 1⟩, ⟨0, leftParenthesis, 2⟩, ⟨3, integer, 1⟩, ⟨3, leftParenthesis, 2⟩,
    ⟨4, integer, 1⟩, ⟨4, leftParenthesis, 2⟩]

/-- The decisions of the network with the cases that expressions come to. -/
def plan : List (Nat × List Prediction.Case) :=
  [(11, loopCases), (12, operatorCases), (24, atomCases)]

section Settled

set_option maxRecDepth 20000

open Prediction

/-- The token at the loop's entry settles whether to go on. -/
theorem settled_loopCases : Settled network 11 loopCases :=
  settled_of_checkCases (by cbv) (by cbv) (by cbv)

/-- The operator settles which operator to go on with. -/
theorem settled_operatorCases : Settled network 12 operatorCases :=
  settled_of_checkCases (by cbv) (by cbv) (by cbv)

/-- The token at the beginning of an atom settles which one it is. -/
theorem settled_atomCases : Settled network 24 atomCases :=
  settled_of_checkCases (by cbv) (by cbv) (by cbv)

/-- Every case's token is expected where it is decided on. -/
theorem expected_of_plan :
    (plan.all fun (decisionState, cases) =>
      let next := Parser.nextTokens network decisionState
      cases.all fun case => next.contains case.type || next.contains Parser.ruleEnd) = true := by
  cbv

end Settled

end Arithmetic

end GrammarService
