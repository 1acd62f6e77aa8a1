import GrammarService.Proofs.Parser.Nodes
import GrammarService.Proofs.Parser.Soundness

namespace GrammarService

/-!
# What a rendered tree reads

The text of a derivation is told by recursion: that of a rule consists of its label and the texts
of its parts. `ParseTree.render` comes to the same text without recursion. It keeps the pieces that
are still to be written, and writing them comes to the text so far followed by theirs.
-/

namespace Derivation

mutual

/-- The text of a derivation, with the given names for its rules. -/
def text (ruleNames : Array String) : Derivation → String
  | .leaf token => Text.escapeBreaks token.text
  | .node _ rule [] => ParseTree.label ruleNames rule
  | .node _ rule (first :: others) =>
      "(" ++ ParseTree.label ruleNames rule ++ textOfAll ruleNames (first :: others) ++ ")"

/-- The texts of several derivations, each behind a space. -/
def textOfAll (ruleNames : Array String) : List Derivation → String
  | [] => ""
  | first :: others => " " ++ text ruleNames first ++ textOfAll ruleNames others

end

end Derivation

namespace ParseTree

open GrammarService.Derivation

section Writing

variable {tree : ParseTree} (ruleNames : Array String)

mutual

/-- Writing a child adds the text of its derivation to what is written. -/
theorem writePieces_child :
    {derivation : Derivation} →
      IsStored tree.nodes derivation →
        {depth : Nat} →
          height derivation ≤ depth →
            (written : String) →
              (rest : List Piece) →
                tree.writePieces ruleNames written (.child depth derivation.child :: rest) =
                  tree.writePieces ruleNames (written ++ derivation.text ruleNames) rest
  | .leaf token, _, depth, _, written, rest => by
      simp [child, writePieces, expand, text]
  | .node number rule [], stored, depth + 1, _, written, rest => by
      have isNode : tree.node number = nodeOf rule [] := by
        rw [node, Array.getD_eq_getD_getElem?, stored.1, Option.getD_some]
      simp [child, writePieces, expand, text, isNode, nodeOf]
  | .node number rule (first :: others), stored, depth + 1, bounded, written, rest => by
      have isNode : tree.node number = nodeOf rule (first :: others) := by
        rw [node, Array.getD_eq_getD_getElem?, stored.1, Option.getD_some]
      have partsBounded : heightOfAll (first :: others) ≤ depth := by
        rw [height] at bounded
        omega
      have isFilled : (nodeOf rule (first :: others)).children.isEmpty = false := by
        simp [nodeOf]
      rw [child, writePieces, expand, isNode]
      simp only [isFilled, Bool.false_eq_true, ↓reduceIte, List.cons_append, List.append_assoc,
        writePieces]
      rw [show (nodeOf rule (first :: others)).children.toList = (first :: others).map child by
        simp [nodeOf]]
      rw [writePieces_childPieces stored.2 partsBounded]
      simp [writePieces, text, nodeOf, String.append_assoc]

/-- Writing children adds the texts of their derivations to what is written. -/
theorem writePieces_childPieces :
    {parts : List Derivation} →
      AreStored tree.nodes parts →
        {depth : Nat} →
          heightOfAll parts ≤ depth →
            (written : String) →
              (rest : List Piece) →
                tree.writePieces ruleNames written
                    (childPieces depth (parts.map child) ++ rest) =
                  tree.writePieces ruleNames (written ++ textOfAll ruleNames parts) rest
  | [], _, depth, _, written, rest => by
      simp [childPieces, textOfAll]
  | first :: others, ⟨stored, othersStored⟩, depth, bounded, written, rest => by
      rw [heightOfAll] at bounded
      change
        tree.writePieces ruleNames written
            (.text " " :: .child depth first.child ::
              (childPieces depth (others.map child) ++ rest)) =
          _
      rw [writePieces, writePieces_child stored (by omega),
        writePieces_childPieces othersStored (by omega), textOfAll]
      simp [String.append_assoc]

end

/-- A tree is rendered as the text of the derivation that it stands for. -/
theorem Unfolds.render_eq
    {derivation : Derivation}
    (unfolds : tree.Unfolds derivation) :
    tree.render ruleNames = derivation.text ruleNames := by
  rw [render, ← unfolds.1, writePieces_child ruleNames unfolds.2 unfolds.2.height_le, writePieces,
    String.empty_append]

end Writing

/-- A tree that was built from a single rule by adding rules and tokens. -/
inductive IsBuilt : ParseTree → Prop where
  | ofRule (rule : Nat) :
      IsBuilt (.ofRule rule)
  | addRule
      {tree : ParseTree}
      (built : IsBuilt tree)
      (parent rule : Nat) :
      IsBuilt (tree.addRule parent rule)
  | addToken
      {tree : ParseTree}
      (built : IsBuilt tree)
      (parent : Nat)
      (token : Token) :
      IsBuilt (tree.addToken parent token)

/-- A tree that was built stands for a derivation. -/
theorem IsBuilt.exists_unfolds
    {tree : ParseTree}
    (built : tree.IsBuilt) :
    ∃ derivation, tree.Unfolds derivation := by
  induction built with
  | ofRule rule =>
      exact ⟨.node 0 rule [], rfl, rfl, trivial⟩
  | addToken _ parent token inductionHypothesis =>
      obtain ⟨derivation, isRoot, stored⟩ := inductionHypothesis
      refine ⟨graft parent (.leaf token) derivation, ?_, ?_⟩
      · rw [child_graft, isRoot, ParseTree.addToken]
      · exact IsStored.addChild (.leaf token) trivial stored
  | @addRule tree _ parent rule inductionHypothesis =>
      obtain ⟨derivation, isRoot, stored⟩ := inductionHypothesis
      have known (number : Nat) (member : number ∈ numbers derivation) :
          number < tree.nodes.size := by
        obtain ⟨_, _, ⟨present, _⟩, _⟩ := stored.exists_of_mem_numbers member
        exact (Array.getElem?_eq_some_iff.mp present).1
      have storedBefore : IsStored (tree.nodes.push ⟨rule, #[]⟩) derivation :=
        stored.congr derivation fun number member => by
          rw [Array.getElem?_push_lt (known number member),
            Array.getElem?_eq_getElem (known number member)]
      by_cases isNew : parent = tree.nodes.size
      · -- A node that is put into itself is no part of the tree.
        refine ⟨derivation, isRoot, storedBefore.congr derivation fun number member => ?_⟩
        have other : parent ≠ number := by
          have := known number member
          omega
        rw [ParseTree.addRule, Parser.getElem?_addChild_of_ne other]
      · refine ⟨graft parent (.node tree.nodes.size rule []) derivation, ?_, ?_⟩
        · rw [child_graft, isRoot, ParseTree.addRule]
        · refine IsStored.addChild (.node tree.nodes.size rule []) ⟨?_, trivial⟩ storedBefore
          rw [Parser.getElem?_addChild_of_ne isNew]
          simp [nodeOf]

end ParseTree

namespace Parser

variable {σ : Type} [TokenSource σ]

/-- A tree that a rule of a compiled grammar is parsed to stands for a derivation. -/
theorem exists_unfolds_of_compilerShaped
    {name : String}
    {data : RecognizerData}
    {parser : Parser σ}
    (isGrammar : ParserGrammar.ofData name data = .ok parser.grammar)
    (shaped : parser.grammar.network.CompilerShaped)
    (sound : parser.tokens.Sound)
    {rule : String}
    {tree : ParseTree}
    (parsed : (parser.invoke rule).1 = .ok tree) :
    ∃ derivation, tree.Unfolds derivation := by
  obtain ⟨number, after, isNumber, ends, sameNodes⟩ := exists_ends_of_invoke parsed
  obtain ⟨coherent, named⟩ := coherent_of_ofData isGrammar
  obtain ⟨inBounds, -, -⟩ := Array.findIdx?_eq_some_iff_getElem.mp isNumber
  obtain ⟨parts, stored, -⟩ :=
    ends.derivation_of_parseRule shaped coherent sound (named ▸ inBounds)
  exact ⟨.node tree.root number parts, rfl, sameNodes ▸ stored⟩

end Parser

namespace ParseTree

/-- A tree stands for one derivation, and it is rendered as the text of that derivation. -/
def IsRenderedByRecursion (tree : ParseTree) : Prop :=
  ∃ derivation,
    (∀ other, tree.Unfolds other ↔ other = derivation) ∧
      ∀ ruleNames, tree.render ruleNames = derivation.text ruleNames

/-- A tree that stands for a derivation is rendered as the text of it. -/
theorem isRenderedByRecursion_of_exists
    {tree : ParseTree}
    (exists_unfolds : ∃ derivation, tree.Unfolds derivation) :
    tree.IsRenderedByRecursion := by
  obtain ⟨derivation, unfolds⟩ := exists_unfolds
  refine ⟨derivation, fun other => ⟨fun also => also.unique unfolds, ?_⟩,
    fun ruleNames => unfolds.render_eq ruleNames⟩
  rintro rfl
  exact unfolds

/-- A rule over a token and a childless rule, in the order in which they are added. -/
def phrase : ParseTree :=
  ((ofRule 0).addToken 0 ⟨1, "a\tb", 0, 0, 2, 1, 0, 0⟩).addRule 0 7

namespace Entangled

/--
The data of a parser whose rules `f` and `e` are left-recursive. Rule `e` runs into the stop of `s`,
and rule `p` into the stop of `e`, so that each of `p` and `e` is left in place of another rule.
-/
def data : RecognizerData where
  literalNames := []
  symbolicNames := []
  ruleNames := ["s", "f", "p", "e"]
  channelNames := []
  modeNames := []
  encodedNetwork :=
    [4, 1, 1, 11, 2, 0, 7, 0, 2, 1, 7, 1, 2, 2, 7, 2, 2, 3, 7, 3, 1, 0, 1, 2, 1, 1,
      0, 2, 2, 6, 4, 0, 2, 4, 6, 0, 0,
      7,
      0, 8, 3, 2, 1, 0, 8, 1, 1, 0, 0, 0, 2, 10, 3, 4, 2, 0, 10, 3, 1, 0, 0, 0,
      4, 9, 3, 6, 3, 0, 9, 7, 1, 0, 0, 0, 6, 1, 1, 0, 0, 0,
      0]

/-- A parser of it without input. -/
def parser : Parser ListedTokens :=
  Parser.ofStream ((ParserGrammar.ofData "Entangled" data).toOption.getD default)
    (TokenStream.ofSource (ListedTokens.ofList []))

/-- The tree of `s`, where the node of `p` is its own part. -/
def tree : ParseTree where
  nodes := #[⟨0, #[.rule 2]⟩, ⟨1, #[.rule 2]⟩, ⟨2, #[.rule 2]⟩, ⟨3, #[]⟩]
  root := 0

end Entangled

set_option maxRecDepth 20000 in
example : (Entangled.parser.invoke "s").1 = .ok Entangled.tree ∧ Entangled.tree.ContainsItself :=
  ⟨by cbv, 2, .single ⟨_, rfl, by decide⟩, .single ⟨_, rfl, by decide⟩⟩

end ParseTree

end GrammarService
