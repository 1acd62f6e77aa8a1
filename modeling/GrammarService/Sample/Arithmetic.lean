import GrammarService.Network.Draft
import GrammarService.RecognizerData

namespace GrammarService

/-!
# A sample grammar of arithmetic

Sums and products of integers, with parentheses: small, but with a left-recursive rule, a
precedence decision, a fragment, a skipped token and a hidden one. The two networks are laid out
as a grammar compiler lays them out.

The lexer:

```text
PLUS : '+' ;
STAR : '*' ;
LPAREN : '(' ;
RPAREN : ')' ;
INT : DIGIT+ ;
fragment DIGIT : [0-9] ;
WS : [ \t\r\n]+ -> skip ;
COMMENT : '#' ~[\n]* -> channel(HIDDEN) ;
```

The parser:

```text
prog : expr EOF ;
expr : expr '*' expr | expr '+' expr | atom ;
atom : INT | '(' expr ')' ;
```
-/

namespace Arithmetic

/-! Token types. -/

def plus : Int := 1
def star : Int := 2
def leftParenthesis : Int := 3
def rightParenthesis : Int := 4
def integer : Int := 5
def space : Int := 6
def comment : Int := 7

/-- A step of drafting a network. -/
abbrev Drafting :=
  StateM Network.Draft

namespace Drafting

/-- Change the draft. -/
def change (step : Network.Draft → Network.Draft) : Drafting Unit :=
  modify step

/-- Add a state of a rule and get its number. -/
def state
    (kind : StateKind)
    (rule : Option Nat) :
    Drafting Nat := do
  let number := (← get).states.size
  change (·.addState kind rule)
  return number

/-- Add a free edge. -/
def epsilon (source target : Nat) : Drafting Unit :=
  change (·.addEpsilon source target)

/-- Add an edge that consumes one symbol. -/
def atom
    (source target : Nat)
    (label : Int) :
    Drafting Unit :=
  change (·.addAtom source target label)

/-- Add a call of the rule that starts at `start`. -/
def call
    (source start rule : Nat)
    (precedence : Int)
    (follow : Nat) :
    Drafting Unit :=
  change (·.addCall source start rule precedence follow)

/-- Number the decision of a state. -/
def decision (state : Nat) : Drafting Unit :=
  change (·.addDecision state)

/-- Name the other end of a loop or block. -/
def link (state reference : Nat) : Drafting Unit :=
  change (·.linkState state reference)

end Drafting

open Drafting

/-- The start and the stop state of a rule. -/
structure RuleEnds where
  start : Nat
  stop : Nat

/-- Draft a rule of the lexer that matches one character. -/
def draftCharacter
    (rule : Nat)
    (ends : RuleEnds)
    (character : Char) :
    Drafting Unit := do
  let before ← state .basic (some rule)
  epsilon ends.start before
  atom before ends.stop character.toNat

/-- The states around the body of a loop that runs at least once. -/
structure PlusLoop where
  blockStart : Nat
  before : Nat
  after : Nat
  loopBack : Nat
  loopEnd : Nat
  blockEnd : Nat

/-- Draft the states of a loop that runs at least once. -/
def draftPlusLoop (rule : Nat) : Drafting PlusLoop := do
  let blockStart ← state .plusBlockStart (some rule)
  let before ← state .basic (some rule)
  let after ← state .basic (some rule)
  let blockEnd ← state .blockEnd (some rule)
  let loopBack ← state .plusLoopBack (some rule)
  let loopEnd ← state .loopEnd (some rule)
  return ⟨blockStart, before, after, loopBack, loopEnd, blockEnd⟩

/-- Draft the links and edges of a loop, around the edges of its body. -/
def joinPlusLoop
    (loop : PlusLoop)
    (start : Nat)
    (body : Drafting Unit)
    (exit : Nat) :
    Drafting Unit := do
  link loop.blockStart loop.blockEnd
  link loop.loopEnd loop.loopBack
  epsilon start loop.blockStart
  epsilon loop.blockStart loop.before
  body
  epsilon loop.after loop.blockEnd
  epsilon loop.blockEnd loop.loopBack
  epsilon loop.loopBack loop.blockStart
  epsilon loop.loopBack loop.loopEnd
  epsilon loop.loopEnd exit

/-- Draft the start and the stop state of a rule. -/
def draftRuleEnds (rule : Nat) : Drafting RuleEnds := do
  let start ← state .ruleStart (some rule)
  let stop ← state .ruleStop (some rule)
  return ⟨start, stop⟩

/-- Draft the rule `INT`. -/
def draftInteger
    (ends digitEnds : RuleEnds) :
    Drafting Unit := do
  let loop ← draftPlusLoop 4
  joinPlusLoop loop ends.start
    (call loop.before digitEnds.start 5 0 loop.after) ends.stop
  decision loop.blockStart
  decision loop.loopBack

/-- Draft the fragment `DIGIT`. -/
def draftDigit (ends : RuleEnds) : Drafting Unit := do
  let before ← state .basic (some 5)
  epsilon ends.start before
  change (·.addRange before ends.stop '0'.toNat '9'.toNat)

/-- Draft the rule `WS`. -/
def draftSpace (ends : RuleEnds) : Drafting Unit := do
  let loop ← draftPlusLoop 6
  let skipping ← state .basic (some 6)
  joinPlusLoop loop ends.start
    (change (·.addSet loop.before loop.after [(9, 10), (13, 13), (32, 32)])) skipping
  change (·.addAction skipping ends.stop (some 6) 0)
  decision loop.blockStart
  decision loop.loopBack

/-- Draft the rule `COMMENT`. -/
def draftComment (ends : RuleEnds) : Drafting Unit := do
  let hash ← state .basic (some 7)
  let afterHash ← state .basic (some 7)
  let entry ← state .starLoopEntry (some 7)
  let blockStart ← state .starBlockStart (some 7)
  let before ← state .basic (some 7)
  let after ← state .basic (some 7)
  let blockEnd ← state .blockEnd (some 7)
  let loopBack ← state .starLoopBack (some 7)
  let loopEnd ← state .loopEnd (some 7)
  let concealing ← state .basic (some 7)
  link blockStart blockEnd
  link loopEnd loopBack
  epsilon ends.start hash
  atom hash afterHash '#'.toNat
  epsilon afterHash entry
  epsilon entry blockStart
  epsilon entry loopEnd
  epsilon blockStart before
  change (·.addNotSet before after [(10, 10)])
  epsilon after blockEnd
  epsilon blockEnd loopBack
  epsilon loopBack entry
  epsilon loopEnd concealing
  change (·.addAction concealing ends.stop (some 7) 1)
  decision entry
  decision blockStart

/-- Draft the network of the lexer. -/
def draftLexer : Drafting Unit := do
  change (·.addLexerAction .skip)
  change (·.addLexerAction (.channel 1))
  let modeStart ← state .tokenStart none
  change (·.addMode modeStart)
  decision modeStart
  let plusEnds ← draftRuleEnds 0
  let starEnds ← draftRuleEnds 1
  let leftEnds ← draftRuleEnds 2
  let rightEnds ← draftRuleEnds 3
  let integerEnds ← draftRuleEnds 4
  let digitEnds ← draftRuleEnds 5
  let spaceEnds ← draftRuleEnds 6
  let commentEnds ← draftRuleEnds 7
  for (ends, tokenType) in
      [(plusEnds, plus), (starEnds, star), (leftEnds, leftParenthesis),
        (rightEnds, rightParenthesis), (integerEnds, integer), (digitEnds, 0),
        (spaceEnds, space), (commentEnds, comment)] do
    change (·.addRule ends.start tokenType)
    if tokenType ≠ 0 then
      epsilon modeStart ends.start
  draftCharacter 0 plusEnds '+'
  draftCharacter 1 starEnds '*'
  draftCharacter 2 leftEnds '('
  draftCharacter 3 rightEnds ')'
  draftInteger integerEnds digitEnds
  draftDigit digitEnds
  draftSpace spaceEnds
  draftComment commentEnds

/-- Draft the rule `prog`. -/
def draftProgram (ends expressionEnds : RuleEnds) : Drafting Unit := do
  let calling ← state .basic (some 0)
  let ending ← state .basic (some 0)
  let done ← state .basic (some 0)
  epsilon ends.start calling
  call calling expressionEnds.start 1 0 ending
  atom ending done endOfInput
  epsilon done ends.stop

/-- Draft an operator of the rule `expr` that binds as tightly as `precedence`. -/
def draftOperator
    (expressionStart blockStart blockEnd : Nat)
    (operator precedence : Int) :
    Drafting Unit := do
  let guarded ← state .basic (some 1)
  let operating ← state .basic (some 1)
  let operand ← state .basic (some 1)
  let finished ← state .basic (some 1)
  epsilon blockStart guarded
  change (·.addPrecedence guarded operating precedence)
  atom operating operand operator
  call operand expressionStart 1 (precedence + 1) finished
  epsilon finished blockEnd

/-- Draft the rule `expr`: an atom and then operators with their right operands. -/
def draftExpression (ends atomEnds : RuleEnds) : Drafting Unit := do
  let primary ← state .basic (some 1)
  let afterPrimary ← state .basic (some 1)
  let entry ← state .starLoopEntry (some 1)
  let blockStart ← state .starBlockStart (some 1)
  let blockEnd ← state .blockEnd (some 1)
  let loopBack ← state .starLoopBack (some 1)
  let loopEnd ← state .loopEnd (some 1)
  link blockStart blockEnd
  link loopEnd loopBack
  epsilon ends.start primary
  call primary atomEnds.start 2 0 afterPrimary
  epsilon afterPrimary entry
  epsilon entry blockStart
  epsilon entry loopEnd
  draftOperator ends.start blockStart blockEnd star 3
  draftOperator ends.start blockStart blockEnd plus 2
  epsilon blockEnd loopBack
  epsilon loopBack entry
  epsilon loopEnd ends.stop
  decision entry
  decision blockStart

/-- Draft the rule `atom`. -/
def draftAtom (ends expressionEnds : RuleEnds) : Drafting Unit := do
  let blockStart ← state .blockStart (some 2)
  let blockEnd ← state .blockEnd (some 2)
  link blockStart blockEnd
  epsilon ends.start blockStart
  let number ← state .basic (some 2)
  let afterNumber ← state .basic (some 2)
  epsilon blockStart number
  atom number afterNumber integer
  epsilon afterNumber blockEnd
  let opening ← state .basic (some 2)
  let inner ← state .basic (some 2)
  let closing ← state .basic (some 2)
  let closed ← state .basic (some 2)
  epsilon blockStart opening
  atom opening inner leftParenthesis
  call inner expressionEnds.start 1 0 closing
  atom closing closed rightParenthesis
  epsilon closed blockEnd
  epsilon blockEnd ends.stop
  decision blockStart

/-- Draft the network of the parser. -/
def draftParser : Drafting Unit := do
  let programStart ← state .ruleStart (some 0)
  let expressionStart ← state .ruleStart (some 1)
  let atomStart ← state .ruleStart (some 2)
  let programStop ← state .ruleStop (some 0)
  let expressionStop ← state .ruleStop (some 1)
  let atomStop ← state .ruleStop (some 2)
  change (·.addRule programStart 0)
  change (·.addRule expressionStart 0)
  change (·.addRule atomStart 0)
  change (·.markLeftRecursive expressionStart)
  draftProgram ⟨programStart, programStop⟩ ⟨expressionStart, expressionStop⟩
  draftExpression ⟨expressionStart, expressionStop⟩ ⟨atomStart, atomStop⟩
  draftAtom ⟨atomStart, atomStop⟩ ⟨expressionStart, expressionStop⟩

/-- The literals of the token types. -/
def literalNames : List (Option String) :=
  [none, some "'+'", some "'*'", some "'('", some "')'", none, none, none]

/-- The symbolic names of the token types. -/
def symbolicNames : List (Option String) :=
  [none, some "PLUS", some "STAR", some "LPAREN", some "RPAREN", some "INT", some "WS",
    some "COMMENT"]

/-- The network that a sequence of drafting steps gives, encoded. -/
def encodedNetwork
    (kind : GrammarKind)
    (steps : Drafting Unit) :
    List Int :=
  (steps.run (Network.Draft.empty kind comment)).2.encode

/-- The data of the lexer. -/
def lexer : RecognizerData where
  literalNames := literalNames
  symbolicNames := symbolicNames
  ruleNames := ["PLUS", "STAR", "LPAREN", "RPAREN", "INT", "DIGIT", "WS", "COMMENT"]
  channelNames := ["DEFAULT_TOKEN_CHANNEL", "HIDDEN"]
  modeNames := ["DEFAULT_MODE"]
  encodedNetwork := encodedNetwork .lexer draftLexer

/-- The data of the parser. -/
def parser : RecognizerData where
  literalNames := literalNames
  symbolicNames := symbolicNames
  ruleNames := ["prog", "expr", "atom"]
  channelNames := []
  modeNames := []
  encodedNetwork := encodedNetwork .parser draftParser

end Arithmetic

end GrammarService
