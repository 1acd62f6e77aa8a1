import GrammarService.Proofs.Arithmetic.Expressions
import GrammarService.Proofs.Arithmetic.Layout
import GrammarService.Proofs.Parser.Scenes

namespace GrammarService

/-!
# Reading expressions

A walk that comes to the rule `expr` with a precedence reads the longest expression whose operators
bind as tightly, and builds its tree: each time round the loop, what was read becomes the left
operand of the next operator. The proof is by induction on the expression: where it ends, the walk
is at the entry of the loop again, with the token behind the expression ahead.
-/

namespace Arithmetic

open GrammarService.Parser

/-- The precedences that `expr` is invoked with. -/
def IsLowest (precedence : Int) : Prop :=
  precedence = 0 ∨ precedence = 3 ∨ precedence = 4

/-- A right operand has to bind more tightly than its operator. -/
theorem isLowest_operand
    {operator : Int}
    (isOperator : operator = star ∨ operator = plus) :
    IsLowest (strength operator + 1) := by
  rcases isOperator with rfl | rfl
  · exact .inr (.inr rfl)
  · exact .inr (.inl rfl)

/-- The states of an operator, and the alternative by which they are chosen. -/
structure OperatorStates where
  alternative : Nat
  guarded : Nat
  operating : Nat
  operand : Nat
  finished : Nat

/-- Where each of the two operators is in the network. -/
def statesOf (operator : Int) : OperatorStates :=
  if operator = star then ⟨1, 16, 17, 18, 19⟩ else ⟨2, 20, 21, 22, 23⟩

/-- The token behind an expression does not belong to it. -/
def Expression.Ends
    (expression : Expression)
    (next : Token) :
    Prop :=
  next.type = rightParenthesis ∨ next.type = endOfInput ∨
    (next.type = star ∨ next.type = plus) ∧ strength next.type ≤ expression.binding

/-- No operator is looser than `'+'`. -/
theorem Expression.two_le_binding (expression : Expression) : 2 ≤ expression.binding := by
  cases expression with
  | binary left operator right =>
      rw [binding_binary, strength]
      split <;> decide
  | _ => simp [binding]

section Cases

variable {precedence operator : Int}

theorem settles_loop
    {case : Prediction.Case}
    (isCase : case ∈ loopCases) :
    Settles network plan 11 case where
  planned := ⟨0, 11, loopCases, rfl, rfl, settled_loopCases, isCase⟩
  several := by decide
  expected := by
    have expected := expected_of_plan
    simp only [plan, List.all_cons, Bool.and_eq_true, List.all_eq_true] at expected
    exact expected.1 case isCase

theorem settles_operator
    {case : Prediction.Case}
    (isCase : case ∈ operatorCases) :
    Settles network plan 12 case where
  planned := ⟨1, 12, operatorCases, rfl, rfl, settled_operatorCases, isCase⟩
  several := by decide
  expected := by
    have expected := expected_of_plan
    simp only [plan, List.all_cons, Bool.and_eq_true, List.all_eq_true] at expected
    exact expected.2.1 case isCase

theorem settles_atom
    {case : Prediction.Case}
    (isCase : case ∈ atomCases) :
    Settles network plan 24 case where
  planned := ⟨2, 24, atomCases, rfl, rfl, settled_atomCases, isCase⟩
  several := by decide
  expected := by
    have expected := expected_of_plan
    simp only [plan, List.all_cons, Bool.and_eq_true, List.all_eq_true] at expected
    exact expected.2.2.1 case isCase

/-- The loop goes on with an operator that binds tightly enough. -/
theorem mem_loopCases_operator
    (isLowest : IsLowest precedence)
    (isOperator : operator = star ∨ operator = plus)
    (tight : precedence ≤ strength operator) :
    ⟨precedence, operator, 1⟩ ∈ loopCases := by
  rcases isLowest with rfl | rfl | rfl <;> rcases isOperator with rfl | rfl <;>
    first
      | decide
      | exact absurd tight (by decide)

/-- The operator is the one that is ahead. -/
theorem mem_operatorCases
    (isLowest : IsLowest precedence)
    (isOperator : operator = star ∨ operator = plus)
    (tight : precedence ≤ strength operator) :
    ⟨precedence, operator, (statesOf operator).alternative⟩ ∈ operatorCases := by
  rcases isLowest with rfl | rfl | rfl <;> rcases isOperator with rfl | rfl <;>
    first
      | decide
      | exact absurd tight (by decide)

/-- The loop ends before an operator that binds too loosely. -/
theorem mem_loopCases_end
    {next : Token}
    (isLowest : IsLowest precedence)
    (isEnd :
      next.type = rightParenthesis ∨ next.type = endOfInput ∨
        (next.type = star ∨ next.type = plus) ∧ strength next.type < precedence) :
    ⟨precedence, next.type, 2⟩ ∈ loopCases := by
  generalize next.type = type at isEnd
  rcases isLowest with rfl | rfl | rfl <;>
    rcases isEnd with rfl | rfl | ⟨rfl | rfl, loose⟩ <;>
    first
      | decide
      | exact absurd loose (by decide)

/-- An atom begins with a number or a parenthesis. -/
theorem mem_atomCases (isLowest : IsLowest precedence) :
    ⟨precedence, integer, 1⟩ ∈ atomCases ∧ ⟨precedence, leftParenthesis, 2⟩ ∈ atomCases := by
  rcases isLowest with rfl | rfl | rfl <;> decide

end Cases

/-- A scene at the beginning of an expression, in a new context. -/
structure Begins
    (scene : Scene)
    (precedence : Int)
    (link : Link) :
    Prop where
  state : scene.state = 1
  node : scene.nodes[scene.context]? = some ⟨1, #[]⟩
  last : scene.nodes.size = scene.context + 1
  linked : scene.links.size = scene.nodes.size
  isLink : scene.links[scene.context]? = some link
  precedences : ∃ outer, scene.precedences = precedence :: outer
  recursions : ∃ others, scene.recursions = link :: others
  idle : scene.idle ≤ 3

/-- A scene at the entry of the loop, behind an expression that began in another scene. -/
structure Arrives
    (first last : Scene)
    (link : Link)
    (expression : Expression) :
    Prop where
  state : last.state = 11
  shows : Shows last.nodes first.context last.context expression
  linked : last.links.size = last.nodes.size
  isLink : last.links[last.context]? = some link
  precedences : last.precedences = first.precedences
  recursions : last.recursions = first.recursions
  idle : (last.idle : Int) ≤ 4 + 6 * (4 - expression.binding)
  keepsNodes : ∀ number < first.context, last.nodes[number]? = first.nodes[number]?
  keepsLinks : ∀ number < first.context, last.links[number]? = first.links[number]?

/-- Little has happened since the last token of an expression. -/
theorem Arrives.idle_le
    {first last : Scene}
    {link : Link}
    {expression : Expression}
    (arrives : Arrives first last link expression) :
    last.idle ≤ 16 := by
  have idle := arrives.idle
  have atLeast := expression.two_le_binding
  omega

variable {σ : Type} [TokenSource σ] {visible : List Token} {scene : Scene}

/-- The only edge of a state is free, and no round of the loop begins there. -/
def Passes (number target : Nat) : Prop :=
  (network.state number).kind ≠ .ruleStop ∧
    (network.state number).kind ≠ .starLoopEntry ∧
      (network.state number).edges = [.epsilon target none]

instance (number target : Nat) : Decidable (Passes number target) :=
  inferInstanceAs (Decidable (_ ∧ _ ∧ _))

/-- Between two tokens a walk takes far fewer steps than would make it give up. -/
theorem lt_idleLimit
    {idle : Nat}
    (calm : idle < 1000) :
    idle < idleLimit grammar.network :=
  Nat.lt_trans calm (by decide)

/-- A free edge is followed. -/
theorem leads_pass
    {number target : Nat}
    (state : scene.state = number)
    (calm : scene.idle < 1000)
    (passes : Passes number target) :
    Leads σ grammar plan visible 1 scene
      { scene with state := target, idle := scene.idle + 1 } := by
  subst state
  exact .free (lt_idleLimit calm) passes.1 passes.2.1 passes.2.2

/-- At the end of an expression the loop is left, and so is the rule. -/
theorem leads_end
    {precedence : Int}
    {outer : List Int}
    {others : List Link}
    {parent caller follow : Nat}
    {next : Token}
    {rest : List Token}
    (state : scene.state = 11)
    (calm : scene.idle < 900)
    (isLink : scene.links[scene.context]? = some ⟨some parent, some caller⟩)
    (precedences : scene.precedences = precedence :: outer)
    (recursions : scene.recursions = ⟨some parent, some caller⟩ :: others)
    (ahead : scene.ahead = next :: rest)
    (isCase : ⟨precedence, next.type, 2⟩ ∈ loopCases)
    (goesOn : network.followOf? caller = some follow) :
    Leads σ grammar plan visible 3 scene
      { scene with
        state := follow
        context := parent
        nodes := ParseTree.addChild scene.nodes parent (.rule scene.context)
        precedences := outer
        recursions := others
        idle := scene.idle + 3 } := by
  have calm' : scene.idle < 998 := by omega
  have chooses :
      Leads σ grammar plan visible 1 scene
        { scene with state := 15, idle := scene.idle + 1 } :=
    .choose (lt_idleLimit (by omega)) (by rw [state]; decide) (by rw [state]; exact settles_loop isCase)
      ahead rfl precedences (by rw [state]; rfl) (by rw [state]; decide)
  have passes := chooses.trans (leads_pass rfl (by dsimp only; omega) (by decide : Passes 15 4))
  exact passes.trans
    (.leaveRecursion (lt_idleLimit (by dsimp only; omega)) (by dsimp only; decide)
      (by dsimp only; decide) isLink recursions precedences goesOn)

/-! ## Atoms -/

/-- The nodes once an atom has begun below a context, with its first token. -/
def withAtom
    (nodes : Array ParseTree.RuleNode)
    (context : Nat)
    (token : Token) :
    Array ParseTree.RuleNode :=
  ParseTree.addChild
    (ParseTree.addChild (nodes.push ⟨2, #[]⟩) context (.rule nodes.size)) nodes.size
    (.token token)

@[simp] theorem size_withAtom
    (nodes : Array ParseTree.RuleNode)
    (context : Nat)
    (token : Token) :
    (withAtom nodes context token).size = nodes.size + 1 := by
  simp [withAtom]

/-- The atom is the only child of its context, and its only child is the token. -/
theorem getElem?_withAtom
    {nodes : Array ParseTree.RuleNode}
    {context : Nat}
    (isNode : nodes[context]? = some ⟨1, #[]⟩)
    (token : Token) :
    (withAtom nodes context token)[context]? = some ⟨1, #[.rule nodes.size]⟩ ∧
      (withAtom nodes context token)[nodes.size]? = some ⟨2, #[.token token]⟩ := by
  have inBounds := (Array.getElem?_eq_some_iff.mp isNode).1
  have isPushed : (nodes.push ⟨2, #[]⟩)[context]? = some ⟨1, #[]⟩ := by
    rw [Array.getElem?_push_lt inBounds, ← Array.getElem?_eq_getElem inBounds, isNode]
  have isAtom :
      (ParseTree.addChild (nodes.push ⟨2, #[]⟩) context (.rule nodes.size))[nodes.size]? =
        some ⟨2, #[]⟩ := by
    rw [getElem?_addChild_of_ne (by omega), Array.getElem?_push_size]
  constructor
  · rw [withAtom, getElem?_addChild_of_ne (by omega), getElem?_addChild_self isPushed]
    rfl
  · exact getElem?_addChild_self isAtom (.token token)

/-- The other nodes are as before. -/
theorem getElem?_withAtom_of_lt
    {nodes : Array ParseTree.RuleNode}
    {context number : Nat}
    (inBounds : number < nodes.size)
    (other : number ≠ context)
    (token : Token) :
    (withAtom nodes context token)[number]? = nodes[number]? := by
  rw [withAtom, getElem?_addChild_of_ne (by omega), getElem?_addChild_of_ne (by omega),
    Array.getElem?_push, if_neg (by omega)]

/-- An atom is entered, and its first token is consumed. -/
theorem leads_atom
    {precedence : Int}
    {outer : List Int}
    {token : Token}
    {rest : List Token}
    {alternative : Nat}
    (branch behind : Nat)
    (state : scene.state = 1)
    (calm : scene.idle < 900)
    (linked : scene.links.size = scene.nodes.size)
    (precedences : scene.precedences = precedence :: outer)
    (ahead : scene.ahead = token :: rest)
    (isCase : ⟨precedence, token.type, alternative⟩ ∈ atomCases)
    (isBranch : (network.state 24).edges[alternative - 1]? = some (.epsilon branch none))
    (inside : (network.state branch).kind ≠ .ruleStop)
    (isToken : (network.state branch).edges = [.atom behind token.type]) :
    Leads σ grammar plan visible 5 scene
      { scene with
        state := behind
        context := scene.nodes.size
        nodes := withAtom scene.nodes scene.context token
        links := scene.links.push ⟨some scene.context, some 9⟩
        ahead := rest
        idle := 0 } := by
  have begins :
      Leads σ grammar plan visible 1 scene { scene with state := 9, idle := scene.idle + 1 } :=
    leads_pass state (by omega) (by decide)
  have calls := begins.trans
    (.call (lt_idleLimit (by dsimp only; omega)) (by dsimp only; decide)
      (rfl : (network.state 9).edges = [.call 2 2 0 10]) rfl rfl linked)
  have enters := calls.trans
    (leads_pass rfl (by dsimp only; omega) (by decide : Passes 2 24))
  have chooses := enters.trans
    (.choose (lt_idleLimit (by dsimp only; omega)) (by dsimp only; decide) (settles_atom isCase)
      ahead rfl precedences isBranch (by dsimp only; rfl))
  have consumes := chooses.trans
    (.token (lt_idleLimit (by dsimp only; omega)) (by exact inside) ahead isToken)
  exact consumes

/-- An atom is left, and the walk comes to the loop. -/
theorem leads_atomEnd
    {number parent : Nat}
    (state : scene.state = number)
    (calm : scene.idle < 900)
    (isLink : scene.links[scene.context]? = some ⟨some parent, some 9⟩)
    (passes : Passes number 25) :
    Leads σ grammar plan visible 4 scene
      { scene with state := 11, context := parent, idle := scene.idle + 4 } := by
  have closes :
      Leads σ grammar plan visible 1 scene { scene with state := 25, idle := scene.idle + 1 } :=
    leads_pass state (by omega) passes
  have stops := closes.trans
    (leads_pass rfl (by dsimp only; omega) (by decide : Passes 25 5))
  have leaves := stops.trans
    (.leave (lt_idleLimit (by dsimp only; omega)) rfl rfl isLink
      (rfl : network.followOf? 9 = some 10))
  have arrives := leaves.trans
    (leads_pass rfl (by dsimp only; omega) (by decide : Passes 10 11))
  exact arrives

/-! ## Operators -/

/-- What the network does with an operator. -/
structure Operates
    (operator : Int)
    (states : OperatorStates) :
    Prop where
  chosen :
    (network.state 12).edges[states.alternative - 1]? = some (.epsilon states.guarded none)
  guards : (network.state states.guarded).edges = [.precedence states.operating (strength operator)]
  consumes : (network.state states.operating).edges = [.atom states.operand operator]
  calls :
    (network.state states.operand).edges = [.call 1 1 (strength operator + 1) states.finished]
  isCaller : (network.state states.operand).number = states.operand
  goesOn : network.followOf? states.operand = some states.finished
  finishes : Passes states.finished 13
  inside :
    (network.state states.guarded).kind ≠ .ruleStop ∧
      (network.state states.operating).kind ≠ .ruleStop ∧
        (network.state states.operand).kind ≠ .ruleStop

theorem operates_statesOf
    {operator : Int}
    (isOperator : operator = star ∨ operator = plus) :
    Operates operator (statesOf operator) := by
  rcases isOperator with rfl | rfl <;> constructor <;> decide

/-- The nodes once the left operand in a context has become part of a new one, with an operator. -/
def withOperator
    (nodes : Array ParseTree.RuleNode)
    (context : Nat)
    (operator : Token) :
    Array ParseTree.RuleNode :=
  ParseTree.addChild
    (ParseTree.addChild (nodes.push ⟨1, #[]⟩) nodes.size (.rule context)) nodes.size
    (.token operator)

@[simp] theorem size_withOperator
    (nodes : Array ParseTree.RuleNode)
    (context : Nat)
    (operator : Token) :
    (withOperator nodes context operator).size = nodes.size + 1 := by
  simp [withOperator]

/-- The new context has the left operand and the operator as its children. -/
theorem getElem?_withOperator
    (nodes : Array ParseTree.RuleNode)
    (context : Nat)
    (operator : Token) :
    (withOperator nodes context operator)[nodes.size]? =
      some ⟨1, #[.rule context, .token operator]⟩ :=
  getElem?_addChild_self (getElem?_addChild_self Array.getElem?_push_size (.rule context))
    (.token operator)

/-- The other nodes are as before. -/
theorem getElem?_withOperator_of_lt
    {nodes : Array ParseTree.RuleNode}
    {number : Nat}
    (inBounds : number < nodes.size)
    (context : Nat)
    (operator : Token) :
    (withOperator nodes context operator)[number]? = nodes[number]? := by
  rw [withOperator, getElem?_addChild_of_ne (by omega), getElem?_addChild_of_ne (by omega),
    Array.getElem?_push, if_neg (by omega)]

/-- At the beginning of the right operand: what was read has become the left one. -/
def inOperand
    (scene : Scene)
    (operator : Token)
    (link : Link)
    (rest : List Token) :
    Scene where
  state := 1
  context := (withOperator scene.nodes scene.context operator).size
  nodes := (withOperator scene.nodes scene.context operator).push ⟨1, #[]⟩
  links :=
    ((scene.links.push link).setIfInBounds scene.context ⟨some scene.nodes.size, some 1⟩).push
      ⟨some scene.nodes.size, some (statesOf operator.type).operand⟩
  precedences := (strength operator.type + 1) :: scene.precedences
  recursions := ⟨some scene.nodes.size, some (statesOf operator.type).operand⟩ :: scene.recursions
  ahead := rest
  idle := 1

/-- The right operand begins in a new context. -/
theorem begins_inOperand
    (linked : scene.links.size = scene.nodes.size)
    (operator : Token)
    (link : Link)
    (rest : List Token) :
    Begins (inOperand scene operator link rest) (strength operator.type + 1)
      ⟨some scene.nodes.size, some (statesOf operator.type).operand⟩ where
  state := rfl
  node := Array.getElem?_push_size
  last := by simp [inOperand]
  linked := by simp [inOperand, linked]
  isLink := by
    simp only [inOperand, size_withOperator]
    rw [Array.getElem?_push, if_pos (by simp [linked])]
  precedences := ⟨_, rfl⟩
  recursions := ⟨_, rfl⟩
  idle := by simp [inOperand]

/-- The loop goes on with an operator: what was read becomes its left operand. -/
theorem leads_inOperand
    {precedence : Int}
    {outer : List Int}
    {operator : Token}
    {rest : List Token}
    {children : Array ParseTree.Child}
    {link : Link}
    {others : List Link}
    (state : scene.state = 11)
    (calm : scene.idle < 900)
    (isLowest : IsLowest precedence)
    (isOperator : operator.type = star ∨ operator.type = plus)
    (tight : precedence ≤ strength operator.type)
    (linked : scene.links.size = scene.nodes.size)
    (isNode : scene.nodes[scene.context]? = some ⟨1, children⟩)
    (precedences : scene.precedences = precedence :: outer)
    (recursions : scene.recursions = link :: others)
    (ahead : scene.ahead = operator :: rest) :
    Leads σ grammar plan visible 5 scene (inOperand scene operator link rest) := by
  obtain ⟨chosen, guards, consumes, calls, isCaller, goesOn, finishes, inside⟩ :=
    operates_statesOf isOperator
  have rounds :
      Leads σ grammar plan visible 1 scene
        { scene with
          state := 12
          context := scene.nodes.size
          nodes :=
            ParseTree.addChild (scene.nodes.push ⟨1, #[]⟩) scene.nodes.size
              (.rule scene.context)
          links :=
            (scene.links.push link).setIfInBounds scene.context ⟨some scene.nodes.size, some 1⟩
          idle := scene.idle + 1 } := by
    have isCase := mem_loopCases_operator isLowest isOperator tight
    have round := @Leads.round σ _ grammar plan visible scene ⟨precedence, operator.type, 1⟩
      operator rest outer 12 1 children link others (lt_idleLimit (by omega))
      (by rw [state]; exact settles_loop isCase) ahead rfl precedences (by rw [state]; rfl)
      (by rw [state]; rfl) (by rw [state]; rfl) (by decide) isNode recursions
    rwa [state] at round
  have chooses := rounds.trans
    (.choose (lt_idleLimit (by dsimp only; omega)) (by dsimp only; decide)
      (settles_operator (mem_operatorCases isLowest isOperator tight)) ahead rfl precedences chosen
      (by dsimp only; rfl))
  have admits := chooses.trans
    (.precedence (lt_idleLimit (by dsimp only; omega)) (by exact inside.1) guards precedences tight)
  have reads := admits.trans
    (.token (lt_idleLimit (by dsimp only; omega)) (by exact inside.2.1) ahead consumes)
  have invokes := reads.trans
    (.callRecursive (lt_idleLimit (by dsimp only; omega)) (by exact inside.2.2) calls isCaller rfl
      (by simp [linked]))
  exact invokes

/-! ## Expressions -/

/-- A number is read. -/
theorem leads_number
    {precedence : Int}
    {link : Link}
    {token : Token}
    {rest : List Token}
    (isLowest : IsLowest precedence)
    (isInteger : token.type = integer)
    (begins : Begins scene precedence link)
    (ahead : scene.ahead = token :: rest) :
    ∃ last,
      Leads σ grammar plan visible 9 scene last ∧ Arrives scene last link (.number token) ∧
        last.ahead = rest := by
  obtain ⟨state, isNode, atEnd, linked, isLink, ⟨outer, precedences⟩, _, idle⟩ := begins
  have isCase : ⟨precedence, token.type, 1⟩ ∈ atomCases :=
    isInteger ▸ (mem_atomCases isLowest).1
  have enters :=
    @leads_atom σ _ visible scene precedence outer token rest 1 26 27 state (by omega) linked
      precedences ahead isCase rfl (by decide) (by rw [isInteger]; rfl)
  have leaves := enters.trans
    (@leads_atomEnd _ _ _ _ 27 scene.context rfl (by dsimp only; omega)
      (by rw [← linked]; exact Array.getElem?_push_size) (by decide))
  refine ⟨_, leaves, ?_, rfl⟩
  obtain ⟨isContext, isAtom⟩ := getElem?_withAtom isNode token
  have behind : scene.context ≤ scene.nodes.size := by omega
  exact {
    state := rfl
    shows := .number ⟨Nat.le_refl _, behind⟩ isContext isAtom
    linked := by simp [linked]
    isLink := by
      change (scene.links.push _)[scene.context]? = some link
      rw [Array.getElem?_push, if_neg (by omega), isLink]
    precedences := rfl
    recursions := rfl
    idle := by simp [Expression.binding]
    keepsNodes := fun number (before : number < scene.context) =>
      getElem?_withAtom_of_lt (by omega) (by omega) token
    keepsLinks := fun number (before : number < scene.context) => by
      rw [Array.getElem?_push, if_neg (by omega)] }

/-- At the beginning of an expression in parentheses. -/
def inGroup
    (scene : Scene)
    (opening : Token)
    (rest : List Token) :
    Scene where
  state := 1
  context := (withAtom scene.nodes scene.context opening).size
  nodes := (withAtom scene.nodes scene.context opening).push ⟨1, #[]⟩
  links :=
    (scene.links.push ⟨some scene.context, some 9⟩).push ⟨some scene.nodes.size, some 29⟩
  precedences := 0 :: scene.precedences
  recursions := ⟨some scene.nodes.size, some 29⟩ :: scene.recursions
  ahead := rest
  idle := 1

/-- The expression in parentheses begins in a new context. -/
theorem begins_inGroup
    (linked : scene.links.size = scene.nodes.size)
    (opening : Token)
    (rest : List Token) :
    Begins (inGroup scene opening rest) 0 ⟨some scene.nodes.size, some 29⟩ where
  state := rfl
  node := Array.getElem?_push_size
  last := by simp [inGroup]
  linked := by simp [inGroup, linked]
  isLink := by
    simp only [inGroup, size_withAtom]
    rw [Array.getElem?_push, if_pos (by simp [linked])]
  precedences := ⟨_, rfl⟩
  recursions := ⟨_, rfl⟩
  idle := by simp [inGroup]

/-- A parenthesis is opened. -/
theorem leads_inGroup
    {precedence : Int}
    {link : Link}
    {opening : Token}
    {rest : List Token}
    (isLowest : IsLowest precedence)
    (isOpening : opening.type = leftParenthesis)
    (begins : Begins scene precedence link)
    (ahead : scene.ahead = opening :: rest) :
    Leads σ grammar plan visible 6 scene (inGroup scene opening rest) := by
  obtain ⟨outer, precedences⟩ := begins.precedences
  have calm := begins.idle
  have isCase : ⟨precedence, opening.type, 2⟩ ∈ atomCases :=
    isOpening ▸ (mem_atomCases isLowest).2
  have opens :=
    @leads_atom σ _ visible scene precedence outer opening rest 2 28 29 begins.state (by omega)
      begins.linked precedences ahead isCase rfl (by decide) (by rw [isOpening]; rfl)
  have invokes := opens.trans
    (.callRecursive (lt_idleLimit (by dsimp only; omega)) (by dsimp only; decide)
      (rfl : (network.state 29).edges = [.call 1 1 0 30]) rfl rfl (by simp [begins.linked]))
  exact invokes

/-- Behind an expression in parentheses, which ended in another scene. -/
def behindGroup
    (scene between : Scene)
    (closing : Token)
    (rest : List Token) :
    Scene where
  state := 11
  context := scene.context
  nodes :=
    ParseTree.addChild
      (ParseTree.addChild between.nodes scene.nodes.size (.rule between.context))
      scene.nodes.size (.token closing)
  links := between.links
  precedences := scene.precedences
  recursions := scene.recursions
  ahead := rest
  idle := 4

section Group

variable
  {precedence : Int}
  {link : Link}
  {opening closing : Token}
  {inner : Expression}
  {between : Scene}
  {rest others : List Token}

/-- The atom and the nodes and links before it are kept inside the parentheses. -/
theorem Arrives.kept_inGroup
    (linked : scene.links.size = scene.nodes.size)
    (arrives :
      Arrives (inGroup scene opening others) between ⟨some scene.nodes.size, some 29⟩ inner)
    {number : Nat}
    (before : number ≤ scene.nodes.size) :
    between.nodes[number]? = (withAtom scene.nodes scene.context opening)[number]? ∧
      between.links[number]? = (scene.links.push ⟨some scene.context, some 9⟩)[number]? := by
  have inside : number < (inGroup scene opening others).context := by
    simp only [inGroup, size_withAtom]
    omega
  rw [arrives.keepsNodes number inside, arrives.keepsLinks number inside]
  simp only [inGroup]
  rw [Array.getElem?_push, if_neg (by simp only [size_withAtom]; omega), Array.getElem?_push,
    if_neg (by simp only [Array.size_push]; omega)]
  exact ⟨rfl, rfl⟩

/-- A parenthesis is closed. -/
theorem leads_behindGroup
    (linked : scene.links.size = scene.nodes.size)
    (isClosing : closing.type = rightParenthesis)
    (arrives :
      Arrives (inGroup scene opening others) between ⟨some scene.nodes.size, some 29⟩ inner)
    (ahead : between.ahead = closing :: rest) :
    Leads σ grammar plan visible 8 between (behindGroup scene between closing rest) := by
  have calm := arrives.idle_le
  have isLink : between.links[scene.nodes.size]? = some ⟨some scene.context, some 9⟩ := by
    rw [(arrives.kept_inGroup linked (Nat.le_refl _)).2, ← linked, Array.getElem?_push_size]
  have ends :=
    @leads_end σ _ visible between 0 _ _ _ 29 30 closing rest arrives.state (by omega)
      arrives.isLink arrives.precedences arrives.recursions ahead
      (mem_loopCases_end (.inl rfl) (.inl isClosing)) rfl
  have closes := ends.trans
    (.token (lt_idleLimit (by dsimp only; omega)) (by dsimp only; decide) ahead
      (by dsimp only; rw [isClosing]; rfl : _ = [Edge.atom 31 closing.type]))
  have leaves := closes.trans
    (@leads_atomEnd _ _ _ _ 31 scene.context rfl (by dsimp only; omega) isLink (by decide))
  exact leaves

/-- An expression in parentheses is shown below its context. -/
theorem arrives_behindGroup
    (begins : Begins scene precedence link)
    (arrives :
      Arrives (inGroup scene opening others) between ⟨some scene.nodes.size, some 29⟩ inner)
    (rest : List Token) :
    Arrives scene (behindGroup scene between closing rest) link (.group opening inner closing) := by
  have linked := begins.linked
  have behind := begins.last
  have kept {number : Nat} (before : number ≤ scene.nodes.size) :=
    arrives.kept_inGroup linked before
  obtain ⟨isContext, isAtom⟩ := getElem?_withAtom begins.node opening
  have isAtom' :
      (behindGroup scene between closing rest).nodes[scene.nodes.size]? =
        some ⟨2, #[.token opening, .rule between.context, .token closing]⟩ := by
    rw [← (kept (Nat.le_refl _)).1] at isAtom
    exact getElem?_addChild_self (getElem?_addChild_self isAtom (.rule between.context))
      (.token closing)
  have others :
      ∀ number ≠ scene.nodes.size,
        (behindGroup scene between closing rest).nodes[number]? = between.nodes[number]? := by
    intro number other
    simp only [behindGroup]
    rw [getElem?_addChild_of_ne (by omega), getElem?_addChild_of_ne (by omega)]
  exact {
    state := rfl
    shows := by
      change Shows _ scene.context scene.context _
      refine .group ⟨Nat.le_refl _, ?_⟩ ?_ isAtom' (arrives.shows.congr ?_ ?_)
      · omega
      · exact (others _ (by omega)).trans ((kept (by omega)).1.trans isContext)
      · simp only [inGroup, size_withAtom]
        omega
      · intro number fromInner _
        refine others number ?_
        simp only [inGroup, size_withAtom] at fromInner
        omega
    linked := by
      simp only [behindGroup, size_addChild]
      exact arrives.linked
    isLink := by
      simp only [behindGroup]
      rw [(kept (by omega)).2, Array.getElem?_push, if_neg (by omega), begins.isLink]
    precedences := rfl
    recursions := rfl
    idle := by simp [Expression.binding, behindGroup]
    keepsNodes := by
      intro number before
      rw [others number (by omega), (kept (by omega)).1,
        getElem?_withAtom_of_lt (by omega) (by omega)]
    keepsLinks := by
      intro number before
      simp only [behindGroup]
      rw [(kept (by omega)).2, Array.getElem?_push, if_neg (by omega)] }

end Group

/-- Behind the right operand, which ended in another scene. -/
def behindOperand (scene between : Scene) : Scene where
  state := 11
  context := scene.nodes.size
  nodes := ParseTree.addChild between.nodes scene.nodes.size (.rule between.context)
  links := between.links
  precedences := scene.precedences
  recursions := scene.recursions
  ahead := between.ahead
  idle := between.idle + 6

section Operand

variable
  {precedence : Int}
  {link : Link}
  {operator next : Token}
  {left right : Expression}
  {first between : Scene}
  {rest others : List Token}

/-- The new context and the nodes and links before it are kept in the right operand. -/
theorem Arrives.kept_inOperand
    (linked : scene.links.size = scene.nodes.size)
    (arrives :
      Arrives (inOperand scene operator link others) between
        ⟨some scene.nodes.size, some (statesOf operator.type).operand⟩ right)
    {number : Nat}
    (before : number ≤ scene.nodes.size) :
    between.nodes[number]? = (withOperator scene.nodes scene.context operator)[number]? ∧
      between.links[number]? =
        ((scene.links.push link).setIfInBounds scene.context
          ⟨some scene.nodes.size, some 1⟩)[number]? := by
  have inside : number < (inOperand scene operator link others).context := by
    simp only [inOperand, size_withOperator]
    omega
  rw [arrives.keepsNodes number inside, arrives.keepsLinks number inside]
  simp only [inOperand]
  rw [Array.getElem?_push, if_neg (by simp only [size_withOperator]; omega), Array.getElem?_push,
    if_neg (by simp only [Array.size_setIfInBounds, Array.size_push]; omega)]
  exact ⟨rfl, rfl⟩

/-- The right operand ends before what binds no tighter than its operator. -/
theorem leads_behindOperand
    (isOperator : operator.type = star ∨ operator.type = plus)
    (isEnd :
      next.type = rightParenthesis ∨ next.type = endOfInput ∨
        (next.type = star ∨ next.type = plus) ∧ strength next.type ≤ strength operator.type)
    (arrives :
      Arrives (inOperand scene operator link others) between
        ⟨some scene.nodes.size, some (statesOf operator.type).operand⟩ right)
    (ahead : between.ahead = next :: rest) :
    Leads σ grammar plan visible 6 between (behindOperand scene between) := by
  have operates := operates_statesOf isOperator
  have calm := arrives.idle_le
  have isCase := mem_loopCases_end (isLowest_operand isOperator)
    (isEnd.imp_right (Or.imp_right (And.imp_right Int.lt_add_one_of_le)))
  have ends :=
    @leads_end σ _ visible between _ _ _ _ _ _ next rest arrives.state (by omega)
      arrives.isLink arrives.precedences arrives.recursions ahead isCase operates.goesOn
  have finishes := ends.trans (leads_pass rfl (by dsimp only; omega) operates.finishes)
  have closes := finishes.trans
    (leads_pass rfl (by dsimp only; omega) (by decide : Passes 13 14))
  have loops := closes.trans
    (leads_pass rfl (by dsimp only; omega) (by decide : Passes 14 11))
  exact loops

/-- An operator is shown with its operands, in the context that took the left one's place. -/
theorem arrives_behindOperand
    (arrivesLeft : Arrives first scene link left)
    (arrives :
      Arrives (inOperand scene operator link others) between
        ⟨some scene.nodes.size, some (statesOf operator.type).operand⟩ right)
    (tight : strength operator.type < right.binding) :
    Arrives first (behindOperand scene between) link (.binary left operator right) := by
  have linked := arrivesLeft.linked
  have kept {number : Nat} (before : number ≤ scene.nodes.size) :=
    arrives.kept_inOperand linked before
  obtain ⟨fromFirst, inBounds⟩ := arrivesLeft.shows.node_bounds
  have isNode :
      (behindOperand scene between).nodes[scene.nodes.size]? =
        some ⟨1, #[.rule scene.context, .token operator, .rule between.context]⟩ := by
    have isOpen := getElem?_withOperator scene.nodes scene.context operator
    rw [← (kept (Nat.le_refl _)).1] at isOpen
    exact getElem?_addChild_self isOpen (.rule between.context)
  have others :
      ∀ number ≠ scene.nodes.size,
        (behindOperand scene between).nodes[number]? = between.nodes[number]? :=
    fun number other => getElem?_addChild_of_ne other.symm (.rule between.context)
  have before :
      ∀ number < scene.nodes.size,
        (behindOperand scene between).nodes[number]? = scene.nodes[number]? := by
    intro number isBefore
    rw [others number (by omega), (kept (by omega)).1, getElem?_withOperator_of_lt isBefore]
  exact {
    state := rfl
    shows := by
      change Shows _ first.context scene.nodes.size _
      refine .binary (by omega) isNode (arrivesLeft.shows.congr (Nat.le_refl _) ?_)
        (arrives.shows.congr ?_ ?_)
      · exact fun number _ isBefore => before number isBefore
      · simp only [inOperand, size_withOperator]
        omega
      · intro number fromRight _
        refine others number ?_
        simp only [inOperand, size_withOperator] at fromRight
        omega
    linked := by
      simp only [behindOperand, size_addChild]
      exact arrives.linked
    isLink := by
      simp only [behindOperand]
      rw [(kept (Nat.le_refl _)).2, Array.getElem?_setIfInBounds_ne (by omega), ← linked,
        Array.getElem?_push_size]
    precedences := arrivesLeft.precedences
    recursions := arrivesLeft.recursions
    idle := by
      have idle := arrives.idle
      simp only [behindOperand, Expression.binding_binary]
      omega
    keepsNodes := by
      intro number isBefore
      rw [before number (by omega), arrivesLeft.keepsNodes number isBefore]
    keepsLinks := by
      intro number isBefore
      simp only [behindOperand]
      rw [(kept (by omega)).2, Array.getElem?_setIfInBounds_ne (by omega), Array.getElem?_push,
        if_neg (by omega), arrivesLeft.keepsLinks number isBefore] }

end Operand

/-- A walk that comes to an expression reads it to its end, in few steps for each of its tokens. -/
theorem leads_expression
    (expression : Expression) :
    ∀ {scene : Scene} {precedence : Int} {link : Link} {next : Token} {rest : List Token},
      expression.Grouped →
        IsLowest precedence →
          precedence ≤ expression.binding →
            expression.Ends next →
              Begins scene precedence link →
                scene.ahead = expression.leaves ++ next :: rest →
                  ∃ count last,
                    Leads σ grammar plan visible count scene last ∧
                      count ≤ 11 * expression.leaves.length ∧
                        Arrives scene last link expression ∧ last.ahead = next :: rest := by
  induction expression with
  | number token =>
      intro scene precedence link next rest grouped isLowest _ _ begins ahead
      obtain ⟨last, leads, arrives, aheadLast⟩ :=
        @leads_number σ _ visible scene _ _ token _ isLowest grouped begins ahead
      exact ⟨9, last, leads, by simp [Expression.leaves], arrives, aheadLast⟩
  | group opening inner closing innerHypothesis =>
      intro scene precedence link next rest grouped isLowest _ _ begins ahead
      obtain ⟨isOpening, isInner, isClosing⟩ := grouped
      have aheadOfGroup : scene.ahead = opening :: (inner.leaves ++ closing :: next :: rest) := by
        simpa [Expression.leaves] using ahead
      have atLeast := inner.two_le_binding
      have opens :
          Leads σ grammar plan visible 6 scene
            (inGroup scene opening (inner.leaves ++ closing :: next :: rest)) :=
        leads_inGroup isLowest isOpening begins aheadOfGroup
      obtain ⟨count, between, reads, few, arrives, aheadBetween⟩ :=
        innerHypothesis isInner (.inl rfl) (by omega) (.inl isClosing)
          (begins_inGroup begins.linked opening _) rfl
      have closes :
          Leads σ grammar plan visible 8 between
            (behindGroup scene between closing (next :: rest)) :=
        leads_behindGroup begins.linked isClosing arrives aheadBetween
      refine ⟨_, _, (opens.trans reads).trans closes, ?_,
        arrives_behindGroup begins arrives (next :: rest), rfl⟩
      simp only [Expression.leaves, List.length_cons, List.length_append, List.length_nil]
      omega
  | binary left operator right leftHypothesis rightHypothesis =>
      intro scene precedence link next rest grouped isLowest tight isEnd begins ahead
      obtain ⟨isLeft, isOperator, isRight, tightLeft, tightRight⟩ := grouped
      rw [Expression.binding_binary] at tight
      have aheadOfLeft :
          scene.ahead = left.leaves ++ operator :: (right.leaves ++ next :: rest) := by
        simpa [Expression.leaves] using ahead
      obtain ⟨countLeft, middle, readsLeft, fewLeft, arrivesLeft, aheadMiddle⟩ :=
        leftHypothesis isLeft isLowest (by omega) (.inr (.inr ⟨isOperator, tightLeft⟩)) begins
          aheadOfLeft
      have isEndRight : right.Ends next :=
        isEnd.imp_right (Or.imp_right (And.imp_right fun loose => by
          rw [Expression.binding_binary] at loose
          omega))
      obtain ⟨outer, precedences⟩ := begins.precedences
      obtain ⟨others, recursions⟩ := begins.recursions
      obtain ⟨children, isNode⟩ := arrivesLeft.shows.exists_children
      have calm := arrivesLeft.idle_le
      have operates :
          Leads σ grammar plan visible 5 middle
            (inOperand middle operator link (right.leaves ++ next :: rest)) :=
        leads_inOperand arrivesLeft.state (by omega) isLowest isOperator tight arrivesLeft.linked
          isNode (arrivesLeft.precedences.trans precedences)
          (arrivesLeft.recursions.trans recursions) aheadMiddle
      obtain ⟨countRight, between, readsRight, fewRight, arrives, aheadBetween⟩ :=
        rightHypothesis isRight (isLowest_operand isOperator) (by omega) isEndRight
          (begins_inOperand arrivesLeft.linked operator link _) rfl
      have finishes : Leads σ grammar plan visible 6 between (behindOperand middle between) :=
        leads_behindOperand isOperator isEnd arrives aheadBetween
      refine ⟨_, _, ((readsLeft.trans operates).trans readsRight).trans finishes, ?_,
        arrives_behindOperand arrivesLeft arrives tightRight, aheadBetween⟩
      simp only [Expression.leaves, List.length_cons, List.length_append]
      omega

end Arithmetic

end GrammarService
