import Mathlib
import GrammarService.ParseTree
import GrammarService.Sample.Arithmetic

namespace GrammarService

/-!
# Arithmetic expressions

What a reader of the grammar takes it to mean, without networks or predictions: the token types that
are sentences, and the one expression that stands for each of them. Sentences are given by an
ambiguous grammar. Expressions are grouped by how tightly operators bind, and to the left.
-/

namespace Arithmetic

/-- The token types that `E → E '*' E | E '+' E | INT | '(' E ')'` derives. -/
inductive Sentence : List Int → Prop where
  | binary
      {left right : List Int}
      {operator : Int}
      (isLeft : Sentence left)
      (isOperator : operator = star ∨ operator = plus)
      (isRight : Sentence right) :
      Sentence (left ++ operator :: right)
  | number :
      Sentence [integer]
  | group
      {inner : List Int}
      (isInner : Sentence inner) :
      Sentence (leftParenthesis :: (inner ++ [rightParenthesis]))

/-- The end of the input is no part of a sentence. -/
theorem Sentence.endOfInput_not_mem
    {types : List Int}
    (sentence : Sentence types) :
    endOfInput ∉ types := by
  induction sentence with
  | binary _ isOperator _ leftHypothesis rightHypothesis =>
      simp only [List.mem_append, List.mem_cons, not_or]
      exact ⟨leftHypothesis, by rcases isOperator with rfl | rfl <;> decide, rightHypothesis⟩
  | number => decide
  | group _ innerHypothesis =>
      simp only [List.mem_cons, List.mem_append, List.not_mem_nil, or_false, not_or]
      exact ⟨by decide, innerHypothesis, by decide⟩

/-- How tightly an operator binds. -/
def strength (operator : Int) : Int :=
  if operator = star then 3 else 2

/-- An expression over tokens. -/
inductive Expression
  | number (token : Token)
  | group (opening : Token) (inner : Expression) (closing : Token)
  | binary (left : Expression) (operator : Token) (right : Expression)
  deriving DecidableEq

namespace Expression

/-- The tokens of an expression, from left to right. -/
def leaves : Expression → List Token
  | .number token => [token]
  | .group opening inner closing => opening :: (inner.leaves ++ [closing])
  | .binary left operator right => left.leaves ++ operator :: right.leaves

/-- How tightly the outermost operator binds; what has none binds most tightly. -/
def binding : Expression → Int
  | .binary _ operator _ => strength operator.type
  | _ => 4

/--
Every token is of its type, and operands bind as tightly as their operator: a left one at least as
tightly, a right one more tightly. So `'*'` binds tighter than `'+'`, and both associate to the left.
-/
def Grouped : Expression → Prop
  | .number token => token.type = integer
  | .group opening inner closing =>
      opening.type = leftParenthesis ∧ inner.Grouped ∧ closing.type = rightParenthesis
  | .binary left operator right =>
      left.Grouped ∧ (operator.type = star ∨ operator.type = plus) ∧ right.Grouped ∧
        strength operator.type ≤ left.binding ∧ strength operator.type < right.binding

instance decidableGrouped : (expression : Expression) → Decidable expression.Grouped
  | .number token => inferInstanceAs (Decidable (token.type = integer))
  | .group _ inner _ =>
      have := decidableGrouped inner
      inferInstanceAs (Decidable (_ ∧ _ ∧ _))
  | .binary left _ right =>
      have := decidableGrouped left
      have := decidableGrouped right
      inferInstanceAs (Decidable (_ ∧ (_ ∨ _) ∧ _ ∧ _ ∧ _))

@[simp] theorem binding_binary
    (left right : Expression)
    (operator : Token) :
    (binary left operator right).binding = strength operator.type :=
  rfl

/-- No operator binds as tightly as what has none. -/
theorem strength_lt (operator : Int) : strength operator < 4 := by
  unfold strength
  split <;> decide

/-- The leftmost and the rightmost operands are at least as tight as the expression says. -/
theorem binding_le (expression : Expression) : expression.binding ≤ 4 := by
  cases expression with
  | binary left operator right => exact Int.le_of_lt (strength_lt operator.type)
  | _ => exact Int.le_refl 4

/--
An operator between two expressions can be moved to where it belongs: past operators of the right
operand that bind no tighter, and past operators of the left one that bind less tightly.
-/
theorem exists_joined
    (left right : Expression)
    (operator : Token)
    (isLeft : left.Grouped)
    (isOperator : operator.type = star ∨ operator.type = plus)
    (isRight : right.Grouped) :
    ∃ joined : Expression,
      joined.Grouped ∧
        joined.leaves = left.leaves ++ operator :: right.leaves ∧
        min (strength operator.type) (min left.binding right.binding) ≤ joined.binding := by
  by_cases fits :
      strength operator.type ≤ left.binding ∧ strength operator.type < right.binding
  · refine ⟨.binary left operator right, ⟨isLeft, isOperator, isRight, fits.1, fits.2⟩, rfl, ?_⟩
    exact min_le_left _ _
  · by_cases looser : left.binding < strength operator.type ∧ left.binding < right.binding
    · cases left with
      | binary first other second =>
          obtain ⟨isFirst, isOther, isSecond, tightFirst, tightSecond⟩ := isLeft
          obtain ⟨joined, isJoined, leaves, tight⟩ :=
            exists_joined second right operator isSecond isOperator isRight
          refine ⟨.binary first other joined,
            ⟨isFirst, isOther, isJoined, tightFirst, ?_⟩, ?_, ?_⟩
          · rw [binding_binary] at looser
            omega
          · simp [Expression.leaves, leaves]
          · rw [binding_binary, binding_binary]
            omega
      | _ =>
          have isLess := strength_lt operator.type
          have isMost := looser.1
          simp only [binding] at isMost
          omega
    · cases right with
      | binary first other second =>
          obtain ⟨isFirst, isOther, isSecond, tightFirst, tightSecond⟩ := isRight
          obtain ⟨joined, isJoined, leaves, tight⟩ :=
            exists_joined left first operator isLeft isOperator isFirst
          rw [binding_binary] at fits looser
          refine ⟨.binary joined other second,
            ⟨isJoined, isOther, isSecond, by omega, tightSecond⟩, ?_, ?_⟩
          · simp [Expression.leaves, leaves]
          · rw [binding_binary, binding_binary]
            omega
      | _ =>
          have isLess := strength_lt operator.type
          have atMost := binding_le left
          change ¬ (_ ∧ _ < (4 : Int)) at fits
          change ¬ (_ ∧ _ < (4 : Int)) at looser
          omega
termination_by sizeOf left + sizeOf right

end Expression

/-- The tokens of a sentence are those of an expression. -/
theorem Sentence.exists_expression
    {types : List Int}
    (sentence : Sentence types)
    {tokens : List Token}
    (isTypes : tokens.map Token.type = types) :
    ∃ expression : Expression, expression.Grouped ∧ expression.leaves = tokens := by
  induction sentence generalizing tokens with
  | binary _ isOperator _ leftHypothesis rightHypothesis =>
      obtain ⟨leftTokens, others, rfl, isLeft, isOthers⟩ := List.map_eq_append_iff.mp isTypes
      obtain ⟨operator, rightTokens, rfl, rfl, isRight⟩ := List.map_eq_cons_iff.mp isOthers
      obtain ⟨left, leftGrouped, rfl⟩ := leftHypothesis isLeft
      obtain ⟨right, rightGrouped, rfl⟩ := rightHypothesis isRight
      obtain ⟨joined, grouped, leaves, _⟩ :=
        Expression.exists_joined left right operator leftGrouped isOperator rightGrouped
      exact ⟨joined, grouped, leaves⟩
  | number =>
      obtain ⟨token, others, rfl, isInteger, isNil⟩ := List.map_eq_cons_iff.mp isTypes
      obtain rfl := List.map_eq_nil_iff.mp isNil
      exact ⟨.number token, isInteger, rfl⟩
  | group _ innerHypothesis =>
      obtain ⟨opening, others, rfl, isOpening, isOthers⟩ := List.map_eq_cons_iff.mp isTypes
      obtain ⟨innerTokens, last, rfl, isInner, isLast⟩ := List.map_eq_append_iff.mp isOthers
      obtain ⟨closing, none, rfl, isClosing, isNil⟩ := List.map_eq_cons_iff.mp isLast
      obtain rfl := List.map_eq_nil_iff.mp isNil
      obtain ⟨inner, grouped, rfl⟩ := innerHypothesis isInner
      exact ⟨.group opening inner closing, ⟨isOpening, grouped, isClosing⟩, rfl⟩

/--
A node of a table shows an expression: a number is `(expr (atom INT))`, a group is
`(expr (atom '(' inner ')'))`, and an operator with its operands is `(expr left operator right)`. All
nodes that it takes are numbered from `first` on.
-/
inductive Shows
    (nodes : Array ParseTree.RuleNode)
    (first : Nat) :
    Nat → Expression → Prop where
  | number
      {node atom : Nat}
      {token : Token}
      (fromFirst : first ≤ node ∧ first ≤ atom)
      (isNode : nodes[node]? = some ⟨1, #[.rule atom]⟩)
      (isAtom : nodes[atom]? = some ⟨2, #[.token token]⟩) :
      Shows nodes first node (.number token)
  | group
      {node atom innerNode : Nat}
      {opening closing : Token}
      {inner : Expression}
      (fromFirst : first ≤ node ∧ first ≤ atom)
      (isNode : nodes[node]? = some ⟨1, #[.rule atom]⟩)
      (isAtom :
        nodes[atom]? = some ⟨2, #[.token opening, .rule innerNode, .token closing]⟩)
      (showsInner : Shows nodes first innerNode inner) :
      Shows nodes first node (.group opening inner closing)
  | binary
      {node leftNode rightNode : Nat}
      {left right : Expression}
      {operator : Token}
      (fromFirst : first ≤ node)
      (isNode :
        nodes[node]? = some ⟨1, #[.rule leftNode, .token operator, .rule rightNode]⟩)
      (showsLeft : Shows nodes first leftNode left)
      (showsRight : Shows nodes first rightNode right) :
      Shows nodes first node (.binary left operator right)

namespace Shows

variable
  {nodes other : Array ParseTree.RuleNode}
  {first node : Nat}
  {expression : Expression}

/-- The node of an expression is numbered from `first` on, and is in the table. -/
theorem node_bounds
    (shows : Shows nodes first node expression) :
    first ≤ node ∧ node < nodes.size := by
  cases shows with
  | number fromFirst isNode _ =>
      exact ⟨fromFirst.1, (Array.getElem?_eq_some_iff.mp isNode).1⟩
  | group fromFirst isNode _ _ =>
      exact ⟨fromFirst.1, (Array.getElem?_eq_some_iff.mp isNode).1⟩
  | binary fromFirst isNode _ _ =>
      exact ⟨fromFirst, (Array.getElem?_eq_some_iff.mp isNode).1⟩

/-- The node of an expression belongs to the rule `expr`. -/
theorem exists_children
    (shows : Shows nodes first node expression) :
    ∃ children, nodes[node]? = some ⟨1, children⟩ := by
  cases shows with
  | number _ isNode _ => exact ⟨_, isNode⟩
  | group _ isNode _ _ => exact ⟨_, isNode⟩
  | binary _ isNode _ _ => exact ⟨_, isNode⟩

/-- A table that agrees from `first` on shows the same expression, also from an earlier number on. -/
theorem congr
    (shows : Shows nodes first node expression)
    {earlier : Nat}
    (isEarlier : earlier ≤ first)
    (agree : ∀ number, first ≤ number → number < nodes.size → other[number]? = nodes[number]?) :
    Shows other earlier node expression := by
  have kept :
      ∀ {number : Nat} {found : ParseTree.RuleNode},
        first ≤ number → nodes[number]? = some found → other[number]? = some found := by
    intro number found fromFirst isFound
    rw [agree number fromFirst (Array.getElem?_eq_some_iff.mp isFound).1, isFound]
  induction shows with
  | number fromFirst isNode isAtom =>
      exact .number ⟨by omega, by omega⟩ (kept fromFirst.1 isNode) (kept fromFirst.2 isAtom)
  | group fromFirst isNode isAtom _ innerHypothesis =>
      exact .group ⟨by omega, by omega⟩ (kept fromFirst.1 isNode) (kept fromFirst.2 isAtom)
        innerHypothesis
  | binary fromFirst isNode _ _ leftHypothesis rightHypothesis =>
      exact .binary (by omega) (kept fromFirst isNode) leftHypothesis rightHypothesis

/-- A node shows one expression only. -/
theorem unique
    {second : Nat}
    {another : Expression}
    (shows : Shows nodes first node expression)
    (showsToo : Shows nodes second node another) :
    expression = another := by
  induction shows generalizing another with
  | number _ isNode isAtom =>
      cases showsToo with
      | number _ isNode' isAtom' => simp_all
      | group _ isNode' isAtom' _ => simp_all
      | binary _ isNode' _ _ => simp_all
  | group _ isNode isAtom _ innerHypothesis =>
      cases showsToo with
      | number _ isNode' isAtom' => simp_all
      | @group _ _ innerNode _ _ _ _ isNode' isAtom' showsInner =>
          rw [isNode] at isNode'
          cases isNode'
          rw [isAtom] at isAtom'
          cases isAtom'
          rw [innerHypothesis showsInner]
      | binary _ isNode' _ _ => simp_all
  | binary _ isNode _ _ leftHypothesis rightHypothesis =>
      cases showsToo with
      | number _ isNode' isAtom' => simp_all
      | group _ isNode' isAtom' _ => simp_all
      | binary _ isNode' showsLeft showsRight =>
          rw [isNode] at isNode'
          cases isNode'
          rw [leftHypothesis showsLeft, rightHypothesis showsRight]

end Shows

end Arithmetic

end GrammarService
