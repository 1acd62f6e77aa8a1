import GrammarService.ParseTree
import GrammarService.Proofs.Network.Coherent
import GrammarService.Proofs.Network.Shape

namespace GrammarService

/-!
# Derivations

A parse tree is a table of nodes that refer to each other by number. A derivation is the same tree
with its parts inside each other. In a derivation every rule is spelled by its parts: they are what
a walk of the rule's network from its start to its stop consumes and calls.

A left-recursive rule is walked as a loop. A part of the same rule at the beginning may stand for a
walk that has come to the loop's entry: that is how operators get their left operands.
-/

/-- A tree of rule invocations over tokens; `number` is the node that stands for it in a table. -/
inductive Derivation
  | leaf (token : Token)
  | node (number rule : Nat) (parts : List Derivation)

namespace Derivation

/-- The child that stands for a derivation in a table of nodes. -/
def child : Derivation → ParseTree.Child
  | .leaf token => .token token
  | .node number _ _ => .rule number

/-- The node that stands for a rule with the given parts. -/
def nodeOf
    (rule : Nat)
    (parts : List Derivation) :
    ParseTree.RuleNode where
  rule := rule
  children := (parts.map child).toArray

mutual

/-- The tokens of a derivation, from left to right. -/
def leaves : Derivation → List Token
  | .leaf token => [token]
  | .node _ _ parts => leavesOfAll parts

/-- The tokens of several derivations, from left to right. -/
def leavesOfAll : List Derivation → List Token
  | [] => []
  | first :: others => leaves first ++ leavesOfAll others

end

mutual

/-- The numbers of all nodes of a derivation. -/
def numbers : Derivation → List Nat
  | .leaf _ => []
  | .node number _ parts => number :: numbersOfAll parts

/-- The numbers of all nodes of several derivations. -/
def numbersOfAll : List Derivation → List Nat
  | [] => []
  | first :: others => numbers first ++ numbersOfAll others

end

mutual

/-- Whether a table of nodes holds a derivation: each of its rules is where its number says. -/
def IsStored (nodes : Array ParseTree.RuleNode) : Derivation → Prop
  | .leaf _ => True
  | .node number rule parts =>
      nodes[number]? = some (nodeOf rule parts) ∧ AreStored nodes parts

/-- Whether a table of nodes holds several derivations. -/
def AreStored (nodes : Array ParseTree.RuleNode) : List Derivation → Prop
  | [] => True
  | first :: others => IsStored nodes first ∧ AreStored nodes others

end

/-- The parts spell a walk of a rule from its start to a state. -/
inductive Spells
    (network : Network)
    (rule : Nat) :
    Nat → List Derivation → Prop where
  | start :
      Spells network rule (network.startOf rule) []
  | free
      {number : Nat}
      {parts : List Derivation}
      {edge : Edge}
      (before : Spells network rule number parts)
      (inside : (network.state number).kind ≠ .ruleStop)
      (present : edge ∈ (network.state number).edges)
      (isFree : edge.isFree = true) :
      Spells network rule edge.target parts
  | token
      {number : Nat}
      {parts : List Derivation}
      {edge : Edge}
      {token : Token}
      (before : Spells network rule number parts)
      (inside : (network.state number).kind ≠ .ruleStop)
      (present : edge ∈ (network.state number).edges)
      (admitted : edge.admits token.type = true) :
      Spells network rule edge.target (parts ++ [.leaf token])
  | call
      {number target callee follow node : Nat}
      {precedence : Int}
      {parts below : List Derivation}
      (before : Spells network rule number parts)
      (inside : (network.state number).kind ≠ .ruleStop)
      (present : Edge.call target callee precedence follow ∈ (network.state number).edges) :
      Spells network rule follow (parts ++ [.node node callee below])
  | round
      {number node : Nat}
      {parts : List Derivation}
      (operand : Spells network rule number parts)
      (leftRecursive : network.isLeftRecursive rule = true)
      (atEntry : (network.state number).kind = .starLoopEntry)
      (decides : (network.state number).precedenceDecision = true) :
      Spells network rule number [.node node rule parts]

mutual

/-- Whether each rule of a derivation is spelled by its parts from its start to its stop. -/
def IsComplete (network : Network) : Derivation → Prop
  | .leaf _ => True
  | .node _ rule parts =>
      Spells network rule (network.stopOf rule) parts ∧ AreComplete network parts

/-- Whether each rule of several derivations is spelled by its parts. -/
def AreComplete (network : Network) : List Derivation → Prop
  | [] => True
  | first :: others => IsComplete network first ∧ AreComplete network others

end

@[simp] theorem leavesOfAll_append
    (first second : List Derivation) :
    leavesOfAll (first ++ second) = leavesOfAll first ++ leavesOfAll second := by
  induction first with
  | nil => simp [leavesOfAll]
  | cons head tail inductionHypothesis => simp [leavesOfAll, inductionHypothesis]

@[simp] theorem numbersOfAll_append
    (first second : List Derivation) :
    numbersOfAll (first ++ second) = numbersOfAll first ++ numbersOfAll second := by
  induction first with
  | nil => simp [numbersOfAll]
  | cons head tail inductionHypothesis => simp [numbersOfAll, inductionHypothesis]

@[simp] theorem areStored_append
    {nodes : Array ParseTree.RuleNode}
    {first second : List Derivation} :
    AreStored nodes (first ++ second) ↔ AreStored nodes first ∧ AreStored nodes second := by
  induction first with
  | nil => simp [AreStored]
  | cons head tail inductionHypothesis =>
      simp [AreStored, inductionHypothesis, and_assoc]

@[simp] theorem areComplete_append
    {network : Network}
    {first second : List Derivation} :
    AreComplete network (first ++ second) ↔
      AreComplete network first ∧ AreComplete network second := by
  induction first with
  | nil => simp [AreComplete]
  | cons head tail inductionHypothesis =>
      simp [AreComplete, inductionHypothesis, and_assoc]

/-- A node with one more part has one more child. -/
theorem nodeOf_append
    (rule : Nat)
    (parts : List Derivation)
    (last : Derivation) :
    nodeOf rule (parts ++ [last]) =
      { nodeOf rule parts with children := (nodeOf rule parts).children.push last.child } := by
  simp [nodeOf]

mutual

/-- A table that agrees on the nodes of a derivation holds it as well. -/
theorem IsStored.congr
    {before after : Array ParseTree.RuleNode} :
    (derivation : Derivation) →
      (∀ number ∈ numbers derivation, after[number]? = before[number]?) →
        IsStored before derivation →
          IsStored after derivation
  | .leaf _, _, _ => by
      simp [IsStored]
  | .node number rule parts, agree, ⟨present, stored⟩ => by
      refine ⟨?_, AreStored.congr parts (fun other member => agree other ?_) stored⟩
      · rw [agree number (by simp [numbers]), present]
      · simp [numbers, member]

/-- A table that agrees on the nodes of several derivations holds them as well. -/
theorem AreStored.congr
    {before after : Array ParseTree.RuleNode} :
    (parts : List Derivation) →
      (∀ number ∈ numbersOfAll parts, after[number]? = before[number]?) →
        AreStored before parts →
          AreStored after parts
  | [], _, _ => by
      simp [AreStored]
  | first :: others, agree, ⟨stored, othersStored⟩ => by
      refine ⟨IsStored.congr first (fun number member => agree number ?_) stored,
        AreStored.congr others (fun number member => agree number ?_) othersStored⟩
      · simp [numbersOfAll, member]
      · simp [numbersOfAll, member]

end

namespace Spells

variable {network : Network} {rule number : Nat} {parts : List Derivation}

/-- A walk of a rule stays in the rule. -/
theorem rule_state
    (shaped : network.CompilerShaped)
    (inRules : rule < network.ruleCount)
    (spells : Spells network rule number parts) :
    (network.state number).rule = some rule := by
  induction spells with
  | start => exact shaped.startRule inRules
  | free _ inside present isFree inductionHypothesis =>
      rw [← Edge.next_of_isFree isFree, shaped.within inside present, inductionHypothesis]
  | token _ inside present admitted inductionHypothesis =>
      rw [← Edge.next_of_admits admitted, shaped.within inside present, inductionHypothesis]
  | call _ inside present inductionHypothesis =>
      exact (shaped.within inside present).trans inductionHypothesis
  | round _ _ _ _ inductionHypothesis => exact inductionHypothesis

/-- A walk of a rule that is at the end of a rule is at the stop of its own. -/
theorem eq_stopOf
    (shaped : network.CompilerShaped)
    (inRules : rule < network.ruleCount)
    (spells : Spells network rule number parts)
    (stopped : (network.state number).kind = .ruleStop) :
    number = network.stopOf rule :=
  shaped.onlyStop stopped (spells.rule_state shaped inRules)

/-- Where a precedence loop can go into another round, its rule can also end. -/
theorem finish
    (shaped : network.CompilerShaped)
    (coherent : network.Coherent)
    (inRules : rule < network.ruleCount)
    (spells : Spells network rule number parts)
    (atEntry : (network.state number).kind = .starLoopEntry)
    (decides : (network.state number).precedenceDecision = true)
    {edge : Edge}
    (present : edge ∈ (network.state number).edges)
    (goesOn : (network.state edge.target).kind ≠ .loopEnd) :
    Spells network rule (network.stopOf rule) parts := by
  have decidesPrecedence := coherent.precedenceDecision decides
  simp only [Network.decidesPrecedence, Bool.and_eq_true] at decidesPrecedence
  obtain ⟨_, exits⟩ := decidesPrecedence
  cases isLast : (network.state number).edges.getLast? with
  | none => simp [isLast] at exits
  | some exit =>
      simp only [isLast, Bool.and_eq_true, decide_eq_true_eq] at exits
      obtain ⟨⟨atLoopEnd, free⟩, exits⟩ := exits
      change (network.state exit.target).kind = .loopEnd at atLoopEnd
      change (network.state exit.target).epsilonOnly = true at free
      have isExit := List.mem_of_getLast? isLast
      have exitIsFree : exit.isFree = true := by
        cases isFree : exit.isFree with
        | true => rfl
        | false =>
            have alone := shaped.alone isExit isFree
            rw [alone, List.mem_singleton] at present
            subst present
            exact absurd atLoopEnd goesOn
      have atEnd :=
        Spells.free spells (by simp [atEntry]) isExit exitIsFree
      split at exits
      next first isFirst =>
          change (network.state exit.target).edges.head? = some first at isFirst
          rw [decide_eq_true_eq] at exits
          change (network.state first.target).kind = .ruleStop at exits
          have member := List.mem_of_head? isFirst
          have firstIsEpsilon : first.isEpsilon = true := by
            rw [coherent.epsilonOnly, Bool.and_eq_true, List.all_eq_true] at free
            exact free.2 first member
          have firstIsFree : first.isFree = true := by
            rcases Edge.isFree_or_call_of_isEpsilon firstIsEpsilon with
              isFree | ⟨target, called, precedence, follow, rfl⟩
            · exact isFree
            · have kind := (coherent.call member).2.1
              rw [show (Edge.call target called precedence follow).target = target from rfl,
                kind] at exits
              cases exits
          have stopped := Spells.free atEnd (by simp [atLoopEnd]) member firstIsFree
          exact stopped.eq_stopOf shaped inRules exits ▸ stopped
      next => cases exits

end Spells

end Derivation

end GrammarService
