import GrammarService.Proofs.Parser.Repeating
import GrammarService.Proofs.Token.Sight

namespace GrammarService

/-!
# What is seen of a walk and its tree

Of the tokens in a tree what counts is how they look: rendering a tree shows no more of them. Apart
from those tokens, a walk depends on its stream and its position only where it looks at the stream.
All the rest of it can be told without them.
-/

namespace ParseTree

variable {look : Token → Token}

/-- A child, with what is seen of it if it is a token. -/
def Child.seen
    (look : Token → Token) :
    Child → Child
  | .rule number => .rule number
  | .token leaf => .token (look leaf)

/-- A node, with what is seen of its tokens. -/
def RuleNode.seen
    (look : Token → Token)
    (node : RuleNode) :
    RuleNode :=
  { node with children := node.children.map (Child.seen look) }

/-- What is seen of a tree. -/
def seen
    (tree : ParseTree)
    (look : Token → Token) :
    ParseTree :=
  { tree with nodes := tree.nodes.map (RuleNode.seen look) }

/-- What is seen of a piece of a rendered tree. -/
def Piece.seen
    (look : Token → Token) :
    Piece → Piece
  | .text written => .text written
  | .child depth node => .child depth (node.seen look)

/-- What is seen of the nodes that gain a child are the nodes seen, with the child seen. -/
theorem map_seen_addChild
    (look : Token → Token)
    (nodes : Array RuleNode)
    (parent : Nat)
    (child : Child) :
    (addChild nodes parent child).map (RuleNode.seen look) =
      addChild (nodes.map (RuleNode.seen look)) parent (child.seen look) := by
  refine Array.ext_getElem? fun number => ?_
  simp only [addChild, Array.getElem?_map, Array.getElem?_modify]
  split
  · cases nodes[number]? with
    | none => rfl
    | some node => simp [RuleNode.seen]
  · rfl

/-- What is seen of a node of a tree is a node of what is seen of the tree. -/
theorem node_seen
    (tree : ParseTree)
    (look : Token → Token)
    (number : Nat) :
    (tree.seen look).node number = (tree.node number).seen look := by
  simp only [node, seen, Array.getD_eq_getD_getElem?, Array.getElem?_map]
  cases tree.nodes[number]? with
  | none => simp [RuleNode.seen]
  | some node => rfl

/-- The pieces of children that are seen are the pieces of the children, seen. -/
theorem childPieces_seen
    (look : Token → Token)
    (depth : Nat)
    (children : List Child) :
    childPieces depth (children.map (Child.seen look)) =
      (childPieces depth children).map (Piece.seen look) := by
  induction children with
  | nil => rfl
  | cons head tail inductionHypothesis =>
      simpa [childPieces, Piece.seen] using inductionHypothesis

/-- What is seen of a child is taken apart as the child is. -/
theorem expand_seen
    (shows : Token.Shows look)
    (tree : ParseTree)
    (ruleNames : Array String)
    (depth : Nat)
    (child : Child) :
    (tree.seen look).expand ruleNames depth (child.seen look) =
      (tree.expand ruleNames depth child).map (Piece.seen look) := by
  cases child with
  | token leaf => cases depth <;> simp [Child.seen, expand, Piece.seen, shows.text]
  | rule number =>
      cases depth with
      | zero => rfl
      | succ depth =>
          have sameChildren :
              ((tree.node number).seen look).children.toList =
                (tree.node number).children.toList.map (Child.seen look) :=
            Array.toList_map
          have sameEmpty :
              ((tree.node number).seen look).children.isEmpty =
                (tree.node number).children.isEmpty := by
            simp only [Array.isEmpty, RuleNode.seen, Array.size_map]
          simp only [Child.seen, expand, node_seen, sameEmpty, sameChildren, childPieces_seen]
          split <;> simp [Piece.seen, RuleNode.seen]

/-- What is seen of a tree is written as the tree is. -/
theorem writePieces_seen
    (shows : Token.Shows look)
    (tree : ParseTree)
    (ruleNames : Array String)
    (written : String)
    (pieces : List Piece) :
    (tree.seen look).writePieces ruleNames written (pieces.map (Piece.seen look)) =
      tree.writePieces ruleNames written pieces := by
  fun_induction writePieces tree ruleNames written pieces with
  | case1 => simp [writePieces]
  | case2 written text rest inductionHypothesis =>
      simpa [writePieces, Piece.seen] using inductionHypothesis
  | case3 written depth child rest inductionHypothesis =>
      rw [List.map_cons, Piece.seen, writePieces, expand_seen shows, ← List.map_append,
        inductionHypothesis]

/-- Trees that look the same are rendered in the same way. -/
theorem render_seen
    (shows : Token.Shows look)
    (tree : ParseTree)
    (ruleNames : Array String) :
    (tree.seen look).render ruleNames = tree.render ruleNames := by
  have sameSize : (tree.seen look).nodes.size = tree.nodes.size := Array.size_map
  rw [render, render, sameSize]
  exact writePieces_seen shows tree ruleNames "" [.child tree.nodes.size (.rule tree.root)]

end ParseTree

namespace Parser.Run

open ParseTree (RuleNode)

variable {σ : Type} {look : Token → Token}

/-- A walk without its stream and its position, and with what is seen of its tree. -/
def blind
    (run : Run σ)
    (look : Token → Token) :
    Run Unit :=
  { run with
    tokens := ⟨(), #[], true⟩
    position := 0
    nodes := run.nodes.map (RuleNode.seen look) }

/-- The rule of a context is seen. -/
theorem ruleOf_blind
    (run : Run σ)
    (look : Token → Token)
    (context : Nat) :
    (run.blind look).ruleOf context = run.ruleOf context := by
  simp only [ruleOf, blind, Array.getD_eq_getD_getElem?, Array.getElem?_map]
  cases run.nodes[context]? <;> rfl

/-- The rule invocations are seen. -/
theorem returnStates_blind
    (run : Run σ)
    (look : Token → Token)
    (network : Network) :
    (run.blind look).returnStates network = run.returnStates network := by
  have from_ :
      ∀ (count context : Nat) (inner : List Nat),
        (run.blind look).returnStatesFrom network count context inner =
          run.returnStatesFrom network count context inner := by
    intro count
    induction count with
    | zero => exact fun _ _ => rfl
    | succ count inductionHypothesis =>
        intro context inner
        simp only [returnStatesFrom, inductionHypothesis]
        rfl
  exact from_ _ _ _

/-- The expected token types are seen. -/
theorem expectedAt_blind
    (run : Run σ)
    (look : Token → Token)
    (network : Network)
    (state : Nat) :
    (run.blind look).expectedAt network state = run.expectedAt network state := by
  have behind :
      ∀ (count : Nat) (context : Option Nat) (following expected : IntervalSet),
        (run.blind look).expectedBehind network count context following expected =
          run.expectedBehind network count context following expected := by
    intro count
    induction count with
    | zero => exact fun _ _ _ => rfl
    | succ count inductionHypothesis =>
        intro context following expected
        simp only [expectedBehind, inductionHypothesis]
        rfl
  simp only [expectedAt, behind]
  rfl

/-! What a walk does apart from looking at its stream is seen. -/

theorem blind_addContext
    (run : Run σ)
    (link : Link)
    (rule : Nat) :
    (run.addContext link rule).blind look = (run.blind look).addContext link rule := by
  simp [blind, addContext, RuleNode.seen]

theorem blind_attach
    (run : Run σ)
    (parent child : Nat) :
    (run.attach parent child).blind look = (run.blind look).attach parent child := by
  simp [blind, attach, ParseTree.map_seen_addChild, ParseTree.Child.seen]

theorem blind_wrapContext
    (run : Run σ)
    (context ruleStart : Nat) :
    (run.wrapContext context ruleStart).blind look =
      (run.blind look).wrapContext context ruleStart :=
  blind_attach
    { run with
      links := run.links.setIfInBounds run.context ⟨some context, some ruleStart⟩
      context := context }
    context run.context

theorem blind_enterRule
    (run : Run σ)
    (context state : Nat) :
    (run.enterRule context state).blind look = (run.blind look).enterRule context state := by
  have sameLink : (run.blind look).link context = run.link context := rfl
  rw [enterRule_eq, enterRule_eq, sameLink]
  cases (run.link context).parent with
  | none => rfl
  | some parent => simp [blind, ParseTree.map_seen_addChild, ParseTree.Child.seen]

theorem blind_leaveRecursion
    (run : Run σ)
    (parent : Option Nat) :
    (run.leaveRecursion parent).blind look = (run.blind look).leaveRecursion parent := by
  cases parent with
  | none => rfl
  | some parent => simp [leaveRecursion, blind, attach, ParseTree.map_seen_addChild,
      ParseTree.Child.seen]

theorem blind_inRound
    (run : Run σ)
    (network : Network)
    (outer : Link)
    (state : Network.State) :
    (run.inRound network outer state).blind look =
      (run.blind look).inRound network outer state := by
  have sameSize : (run.blind look).nodes.size = run.nodes.size := Array.size_map
  have sameRule : (run.blind look).ruleOf (run.blind look).context = run.ruleOf run.context :=
    run.ruleOf_blind look run.context
  rw [inRound, inRound, blind_wrapContext, blind_addContext, sameSize, sameRule]

theorem blind_invoking
    (run : Run σ)
    (network : Network)
    (caller target rule : Nat)
    (precedence : Int) :
    (run.invoking network caller target rule precedence).blind look =
      (run.blind look).invoking network caller target rule precedence := by
  have sameSize : (run.blind look).nodes.size = run.nodes.size := Array.size_map
  have added :
      (run.addContext ⟨some run.context, some caller⟩ rule).blind look =
        (run.blind look).addContext ⟨some run.context, some caller⟩ rule :=
    blind_addContext run _ rule
  simp only [invoking, sameSize]
  split
  · exact congrArg
      (fun later : Run Unit => later.enterRecursion run.nodes.size target precedence) added
  · rw [blind_enterRule, added]
    rfl

theorem blind_consumed
    [TokenSource σ]
    (run : Run σ) :
    run.consumed.blind look =
      { run.blind look with
        nodes :=
          ParseTree.addChild (run.blind look).nodes run.context (.token (look run.current))
        idleSteps := 0 } := by
  simp [blind, ParseTree.map_seen_addChild, ParseTree.Child.seen, consumed]

theorem blind_begun
    (run : Run σ)
    (network : Network)
    (rule : Nat) :
    (run.begun network rule).blind look = (run.blind look).begun network rule := by
  have added := @blind_addContext _ look run ⟨none, none⟩ rule
  simp only [begun]
  split
  · exact congrArg
      (fun later : Run Unit => later.enterRecursion 0 (network.startOf rule) 0) added
  · rw [blind_enterRule, added]

end Parser.Run

end GrammarService
