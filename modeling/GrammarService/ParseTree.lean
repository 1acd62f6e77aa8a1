import GrammarService.Token.Basic

namespace GrammarService

/-!
# Parse trees

A parse tree is kept as a table of rule nodes, so that a tree of any depth is built and rendered
without deep recursion. A child of a node is a token or the number of another node.

`ParseTree.render` writes a tree as nested lists: a rule with its children in parentheses, a
childless rule as its bare name, and a token as its text.
-/

namespace ParseTree

/-- A child of a rule node. -/
inductive Child
  | rule (node : Nat)
  | token (token : Token)
  deriving Repr, DecidableEq, Inhabited

/-- An invocation of a rule and what it matched, in order. -/
structure RuleNode where
  rule : Nat
  children : Array Child
  deriving Repr, DecidableEq, Inhabited

end ParseTree

/-- A tree of rule invocations over tokens. -/
structure ParseTree where
  nodes : Array ParseTree.RuleNode
  root : Nat
  deriving Repr, DecidableEq, Inhabited

namespace ParseTree

/-- A tree of one rule without children. -/
def ofRule (rule : Nat) : ParseTree where
  nodes := #[⟨rule, #[]⟩]
  root := 0

/-- The node with the given number; a number without a node gives a childless one. -/
def node
    (tree : ParseTree)
    (number : Nat) :
    RuleNode :=
  tree.nodes.getD number ⟨0, #[]⟩

/-- Add a child after the other children of a node. -/
def addChild
    (nodes : Array RuleNode)
    (parent : Nat)
    (child : Child) :
    Array RuleNode :=
  nodes.modify parent fun node => { node with children := node.children.push child }

/-- Add a rule after the other children of a node; its number is the number of nodes before. -/
def addRule
    (tree : ParseTree)
    (parent rule : Nat) :
    ParseTree :=
  { tree with
    nodes := addChild (tree.nodes.push ⟨rule, #[]⟩) parent (.rule tree.nodes.size) }

/-- Add a token after the other children of a node. -/
def addToken
    (tree : ParseTree)
    (parent : Nat)
    (token : Token) :
    ParseTree :=
  { tree with nodes := addChild tree.nodes parent (.token token) }

/-- The label of a rule: its name, or its number when it has no name. -/
def label
    (ruleNames : Array String)
    (rule : Nat) :
    String :=
  match ruleNames[rule]? with
  | some name => Text.escapeBreaks name
  | none => toString rule

/-- A piece of a rendered tree that is still to be written. -/
inductive Piece
  | text (text : String)
  /-- A child to be written no deeper than `depth` rules. -/
  | child (depth : Nat) (child : Child)
  deriving Repr, DecidableEq

namespace Piece

/-- An upper bound on the pieces that a child is written with, for nodes of few children. -/
def childWeight (branching : Nat) : (depth : Nat) → Nat
  | 0 => 2 * branching + 3
  | depth + 1 => (2 * branching + 3) * childWeight branching depth

/-- An upper bound on the pieces that a piece is written with, for nodes of few children. -/
def weight
    (branching : Nat) :
    Piece → Nat
  | .text _ => 1
  | .child depth _ => childWeight branching depth

end Piece

/-- The pieces of the children of a node: each behind a space. -/
def childPieces
    (depth : Nat)
    (children : List Child) :
    List Piece :=
  children.flatMap fun child => [.text " ", .child depth child]

/-- The most children that a node among these has. -/
def mostChildren : List RuleNode → Nat
  | [] => 0
  | node :: rest => max node.children.size (mostChildren rest)

/-- A number of children that no node exceeds. -/
def branching (tree : ParseTree) : Nat :=
  mostChildren tree.nodes.toList

/-- The pieces that a child consists of; a rule at depth zero has none. -/
def expand
    (tree : ParseTree)
    (ruleNames : Array String) :
    (depth : Nat) → Child → List Piece
  | _, .token token => [.text (Text.escapeBreaks token.text)]
  | 0, .rule _ => []
  | depth + 1, .rule number =>
      let node := tree.node number
      if node.children.isEmpty then
        [.text (label ruleNames node.rule)]
      else
        .text "(" :: .text (label ruleNames node.rule) ::
          (childPieces depth node.children.toList ++ [.text ")"])

/-- The weight of a sequence of pieces. -/
def totalWeight (branching : Nat) : List Piece → Nat
  | [] => 0
  | piece :: rest => piece.weight branching + totalWeight branching rest

/-- Sequences one behind the other weigh as much as both. -/
theorem totalWeight_append
    (branching : Nat)
    (first second : List Piece) :
    totalWeight branching (first ++ second) =
      totalWeight branching first + totalWeight branching second := by
  induction first with
  | nil =>
      simp [totalWeight]
  | cons head tail inductionHypothesis =>
      simp only [List.cons_append, totalWeight, inductionHypothesis]
      omega

/-- A node among others has no more children than the one with the most. -/
theorem children_size_le_mostChildren
    {nodes : List RuleNode}
    {node : RuleNode}
    (isMember : node ∈ nodes) :
    node.children.size ≤ mostChildren nodes := by
  induction nodes with
  | nil =>
      cases isMember
  | cons head tail inductionHypothesis =>
      simp only [mostChildren]
      rcases List.mem_cons.mp isMember with rfl | inTail
      · omega
      · have := inductionHypothesis inTail
        omega

/-- No node of a tree has more children than its branching allows. -/
theorem children_size_le_branching
    (tree : ParseTree)
    (number : Nat) :
    (tree.node number).children.size ≤ tree.branching := by
  unfold node
  rw [Array.getD_eq_getD_getElem?]
  cases found : tree.nodes[number]? with
  | none =>
      simp
  | some node =>
      obtain ⟨inBounds, rfl⟩ := Array.getElem?_eq_some_iff.mp found
      exact children_size_le_mostChildren (Array.getElem_mem_toList inBounds)

/-- The children of a node weigh as much as their number says. -/
theorem totalWeight_childPieces
    (branching depth : Nat)
    (children : List Child) :
    totalWeight branching (childPieces depth children) =
      children.length * (1 + Piece.childWeight branching depth) := by
  induction children with
  | nil =>
      simp [childPieces, totalWeight]
  | cons head tail inductionHypothesis =>
      have step :
          totalWeight branching (childPieces depth (head :: tail)) =
            1 + (Piece.childWeight branching depth +
              totalWeight branching (childPieces depth tail)) :=
        rfl
      rw [step, inductionHypothesis, List.length_cons, Nat.add_mul]
      omega

/-- A child weighs at least as much as a childless node in parentheses. -/
theorem three_le_childWeight
    (branching depth : Nat) :
    3 ≤ Piece.childWeight branching depth := by
  induction depth with
  | zero =>
      simp [Piece.childWeight]
  | succ depth inductionHypothesis =>
      have grown :
          1 * Piece.childWeight branching depth ≤
            (2 * branching + 3) * Piece.childWeight branching depth :=
        Nat.mul_le_mul_right _ (by omega)
      simp only [Piece.childWeight]
      omega

/-- The pieces of a child weigh less than the child. -/
theorem totalWeight_expand_lt
    (tree : ParseTree)
    (ruleNames : Array String)
    (depth : Nat)
    (child : Child) :
    totalWeight tree.branching (tree.expand ruleNames depth child) <
      Piece.weight tree.branching (.child depth child) := by
  have large := three_le_childWeight tree.branching
  cases child with
  | token token =>
      have := large depth
      simp only [expand, totalWeight, Piece.weight]
      omega
  | rule number =>
      cases depth with
      | zero =>
          have := large 0
          simp only [expand, totalWeight, Piece.weight]
          omega
      | succ depth =>
          have bounded := tree.children_size_le_branching number
          have atLeast := large depth
          have atLeastAbove := large (depth + 1)
          simp only [expand, Piece.weight]
          split
          · simp only [totalWeight, Piece.weight]
            omega
          · simp only [totalWeight, totalWeight_append, totalWeight_childPieces, Piece.weight,
              Piece.childWeight]
            generalize Piece.childWeight tree.branching depth = weight at atLeast ⊢
            have shorter :
                (tree.node number).children.toList.length * (1 + weight) ≤
                  tree.branching * (1 + weight) :=
              Nat.mul_le_mul_right _ (by simpa using bounded)
            have grown : tree.branching ≤ tree.branching * weight :=
              Nat.le_mul_of_pos_right _ (by omega)
            simp only [Nat.mul_add, Nat.mul_one] at shorter ⊢
            rw [Nat.add_mul, Nat.mul_assoc]
            omega

/-- Write pieces behind `written`, first to last, taking children apart on the way. -/
def writePieces
    (tree : ParseTree)
    (ruleNames : Array String)
    (written : String) :
    List Piece → String
  | [] => written
  | .text text :: rest => writePieces tree ruleNames (written ++ text) rest
  | .child depth child :: rest =>
      writePieces tree ruleNames written (tree.expand ruleNames depth child ++ rest)
termination_by pieces => totalWeight tree.branching pieces
decreasing_by
  · simp only [totalWeight, Piece.weight]
    omega
  · have := tree.totalWeight_expand_lt ruleNames depth child
    simp only [totalWeight, totalWeight_append]
    omega

/--
Write a tree as nested lists, with the given names for its rules.

A path down the tree holds every node at most once, so the number of nodes bounds its depth.
-/
def render
    (tree : ParseTree)
    (ruleNames : Array String) :
    String :=
  tree.writePieces ruleNames "" [.child tree.nodes.size (.rule tree.root)]

end ParseTree

end GrammarService
