import Mathlib
import GrammarService.Network.Basic

namespace GrammarService

/-!
# Networks as a grammar compiler lays them out

A compiled network keeps every rule to itself: its edges join states of one rule, and the only way
into another rule is a call, which comes back to the rule it left. Where a walk has a choice, the
choice is between free edges.
-/

namespace Edge

/-- Whether the edge is crossed without a token and without entering a rule. -/
def isFree : Edge → Bool
  | .epsilon .. | .predicate .. | .action .. | .precedence .. => true
  | _ => false

/-- Whether a walk crosses the edge by consuming a token of the given type. -/
def admits
    (edge : Edge)
    (type : Int) :
    Bool :=
  match edge with
  | .atom _ label => label == type
  | .wildcard _ => decide (minTokenType ≤ type)
  | .range .. | .set .. | .notSet .. =>
      edge.consumes type minTokenType maxSetTokenType && decide (minTokenType ≤ type)
  | _ => false

/-- The state in which the rule goes on behind the edge. -/
def next : Edge → Nat
  | .call _ _ _ follow => follow
  | edge => edge.target

/-- Whether the edge enters a rule. -/
def isCall : Edge → Bool
  | .call .. => true
  | _ => false

/-- Free edges need no token. -/
theorem isEpsilon_of_isFree
    {edge : Edge}
    (free : edge.isFree = true) :
    edge.isEpsilon = true := by
  cases edge <;> first | rfl | cases free

/-- An edge without a token is free or a call. -/
theorem isFree_or_call_of_isEpsilon
    {edge : Edge}
    (epsilon : edge.isEpsilon = true) :
    edge.isFree = true ∨
      ∃ target rule precedence follow, edge = .call target rule precedence follow := by
  cases edge <;> first | exact .inl rfl | exact .inr ⟨_, _, _, _, rfl⟩ | cases epsilon

/-- Free edges enter no rule. -/
theorem not_isCall_of_isFree
    {edge : Edge}
    (free : edge.isFree = true) :
    edge.isCall = false := by
  cases edge <;> first | rfl | cases free

/-- Behind a free edge the rule goes on at its target. -/
theorem next_of_isFree
    {edge : Edge}
    (free : edge.isFree = true) :
    edge.next = edge.target := by
  cases edge <;> first | rfl | cases free

/-- Behind a consuming edge the rule goes on at its target. -/
theorem next_of_admits
    {edge : Edge}
    {type : Int}
    (admitted : edge.admits type = true) :
    edge.next = edge.target := by
  cases edge <;> first | rfl | cases admitted

end Edge

namespace Network

/-- The start state of a rule. -/
def startOf
    (network : Network)
    (rule : Nat) :
    Nat :=
  network.ruleStarts.getD rule 0

/-- The stop state of a rule. -/
def stopOf
    (network : Network)
    (rule : Nat) :
    Nat :=
  network.ruleStops.getD rule 0

/-- A network keeps its rules apart, as a grammar compiler does. -/
structure RuleShaped (network : Network) : Prop where
  startRule :
    ∀ {rule : Nat},
      rule < network.ruleCount → (network.state (network.startOf rule)).rule = some rule
  stopRule :
    ∀ {rule : Nat},
      rule < network.ruleCount → (network.state (network.stopOf rule)).rule = some rule
  onlyStop :
    ∀ {number rule : Nat},
      (network.state number).kind = .ruleStop →
        (network.state number).rule = some rule →
          number = network.stopOf rule
  /-- Rules end where they end: their stop states lead to where the rule is called from only. -/
  stopEdges :
    ∀ {number : Nat} {edge : Edge},
      (network.state number).kind = .ruleStop →
        edge ∈ (network.state number).edges →
          ∃ caller target rule precedence follow outermost,
            Edge.call target rule precedence follow ∈ (network.state caller).edges ∧
              (network.state number).rule = some rule ∧
              edge = .epsilon follow outermost
  /-- An edge that is not free is the only one of its state. -/
  alone :
    ∀ {number : Nat} {edge : Edge},
      edge ∈ (network.state number).edges →
        edge.isFree = false →
          (network.state number).edges = [edge]
  callTarget :
    ∀ {number target rule follow : Nat} {precedence : Int},
      Edge.call target rule precedence follow ∈ (network.state number).edges →
        target = network.startOf rule
  /-- Every edge but a call joins states of one rule. -/
  joins :
    ∀ {number : Nat} {edge : Edge},
      (network.state number).kind ≠ .ruleStop →
        edge ∈ (network.state number).edges →
          edge.isCall = false →
            (network.state edge.target).rule = (network.state number).rule

/--
A network is laid out as a grammar compiler does it: where it branches there is a decision, and
rules that were called return to the calling rule.
-/
structure CompilerShaped (network : Network) : Prop extends RuleShaped network where
  decided :
    ∀ {number : Nat},
      (network.state number).kind ≠ .ruleStop →
        1 < (network.state number).edges.length →
          (network.state number).decision.isSome = true
  returns :
    ∀ {number target rule follow : Nat} {precedence : Int},
      (network.state number).kind ≠ .ruleStop →
        Edge.call target rule precedence follow ∈ (network.state number).edges →
          (network.state follow).rule = (network.state number).rule

/-- Every edge, and every return from a call, stays in its rule. -/
theorem CompilerShaped.within
    {network : Network}
    (shaped : network.CompilerShaped)
    {number : Nat}
    {edge : Edge}
    (inside : (network.state number).kind ≠ .ruleStop)
    (present : edge ∈ (network.state number).edges) :
    (network.state edge.next).rule = (network.state number).rule := by
  cases edge with
  | call => exact shaped.returns inside present
  | _ => exact shaped.joins inside present rfl

/-- Rules that were called return to the calling rule. -/
def Rejoins (network : Network) : Prop :=
  ∀ {number target rule follow : Nat} {precedence : Int},
    (network.state number).kind ≠ .ruleStop →
      Edge.call target rule precedence follow ∈ (network.state number).edges →
        (network.state follow).rule = (network.state number).rule

/-- As a grammar compiler lays out a network, rules return to the calling rule. -/
theorem CompilerShaped.rejoins
    {network : Network}
    (shaped : network.CompilerShaped) :
    network.Rejoins :=
  shaped.returns

/-- The rule goes on behind a call where the call says. -/
theorem RuleShaped.followOf?_eq
    {network : Network}
    (shaped : network.RuleShaped)
    {caller target rule follow : Nat}
    {precedence : Int}
    (calls : Edge.call target rule precedence follow ∈ (network.state caller).edges) :
    network.followOf? caller = some follow := by
  rw [followOf?, shaped.alone calls rfl]
  rfl

/-- Whether an edge of a stop state leads to where the state's rule is called from. -/
def isReturn
    (network : Network)
    (stop : State)
    (edge : Edge) :
    Bool :=
  match edge with
  | .epsilon follow _ =>
      (List.range network.states.size).any fun caller =>
        (network.state caller).edges.any fun
          | .call _ rule _ called => called == follow && stop.rule == some rule
          | _ => false
  | _ => false

/-- Whether a state keeps to its rule. -/
def keepsRule
    (network : Network)
    (number : Nat) :
    Bool :=
  let state := network.state number
  let stopped := state.kind = .ruleStop
  (!stopped || state.rule.all fun rule => number == network.stopOf rule) &&
    (!stopped || state.edges.all (network.isReturn state)) &&
    (state.edges.all fun edge => edge.isFree || state.edges == [edge]) &&
    (state.edges.all fun
      | .call target rule _ _ => target == network.startOf rule
      | _ => true) &&
    (stopped ||
      state.edges.all fun edge =>
        edge.isCall || (network.state edge.target).rule == state.rule)

/-- Whether a network keeps its rules apart. -/
def checkRules (network : Network) : Bool :=
  ((List.range network.ruleCount).all fun rule =>
      (network.state (network.startOf rule)).rule == some rule &&
        (network.state (network.stopOf rule)).rule == some rule) &&
    (List.range network.states.size).all network.keepsRule

/-- Whether a state has a decision where it branches, and calls return to its rule. -/
def decidesAndReturns
    (network : Network)
    (number : Nat) :
    Bool :=
  let state := network.state number
  state.kind = .ruleStop ||
    (state.edges.length ≤ 1 || state.decision.isSome) &&
      state.edges.all fun
        | .call _ _ _ follow => (network.state follow).rule == state.rule
        | _ => true

/-- Whether a network is laid out as a grammar compiler does it. -/
def checkShape (network : Network) : Bool :=
  network.checkRules && (List.range network.states.size).all network.decidesAndReturns

/-- A number without a state has no edges. -/
theorem state_of_size_le
    {network : Network}
    {number : Nat}
    (outside : network.states.size ≤ number) :
    network.state number = State.bare number .invalid none := by
  simp [state, Array.getD_eq_getD_getElem?, outside]

/-- What holds of all states and of none holds of all numbers. -/
theorem forall_state
    {network : Network}
    {check : Nat → Bool}
    (checked : (List.range network.states.size).all check = true)
    (number : Nat) :
    check number = true ∨ network.state number = State.bare number .invalid none := by
  rcases Nat.lt_or_ge number network.states.size with inBounds | outside
  · exact .inl (List.all_eq_true.mp checked number (List.mem_range.mpr inBounds))
  · exact .inr (state_of_size_le outside)

/-- The check that rules are kept apart can be trusted. -/
theorem ruleShaped_of_checkRules
    {network : Network}
    (checked : network.checkRules = true) :
    network.RuleShaped := by
  simp only [checkRules, Bool.and_eq_true, List.all_eq_true, List.mem_range, beq_iff_eq]
    at checked
  obtain ⟨rules, states⟩ := checked
  have inside := forall_state (List.all_eq_true.mpr (by simpa using states))
  simp only [keepsRule, Bool.and_eq_true, Bool.or_eq_true, Bool.not_eq_true',
    decide_eq_false_iff_not, decide_eq_true_eq, List.all_eq_true, Option.all_eq_true,
    beq_iff_eq] at inside
  refine {
    startRule := fun inRules => (rules _ inRules).1
    stopRule := fun inRules => (rules _ inRules).2
    onlyStop := ?_
    stopEdges := ?_
    alone := ?_
    callTarget := ?_
    joins := ?_ }
  · intro number rule stopped isRule
    rcases inside number with checked | isBare
    · exact (checked.1.1.1.1.resolve_left (by simp [stopped])) rule isRule
    · simp [isBare, State.bare] at stopped
  · intro number edge stopped member
    rcases inside number with checked | isBare
    · have returns := (checked.1.1.1.2.resolve_left (by simp [stopped])) edge member
      cases edge with
      | epsilon follow outermost =>
          simp only [isReturn, List.any_eq_true, List.mem_range] at returns
          obtain ⟨caller, _, call, isCall, matches_⟩ := returns
          cases call with
          | call target rule precedence called =>
              simp only [Bool.and_eq_true, beq_iff_eq] at matches_
              obtain ⟨rfl, isRule⟩ := matches_
              exact ⟨caller, target, rule, precedence, called, outermost, isCall, isRule, rfl⟩
          | _ => cases matches_
      | _ => cases returns
    · simp [isBare, State.bare] at member
  · intro number edge member notFree
    rcases inside number with checked | isBare
    · exact (checked.1.1.2 edge member).resolve_left (by simp [notFree])
    · simp [isBare, State.bare] at member
  · intro number target rule follow precedence member
    rcases inside number with checked | isBare
    · simpa using checked.1.2 _ member
    · simp [isBare, State.bare] at member
  · intro number edge notStopped member notCall
    rcases inside number with checked | isBare
    · exact ((checked.2.resolve_left notStopped) edge member).resolve_left (by simp [notCall])
    · simp [isBare, State.bare] at member

/-- The check of a layout can be trusted. -/
theorem compilerShaped_of_checkShape
    {network : Network}
    (checked : network.checkShape = true) :
    network.CompilerShaped := by
  obtain ⟨rules, states⟩ := Bool.and_eq_true_iff.mp checked
  have inside := forall_state states
  simp only [decidesAndReturns, Bool.and_eq_true, Bool.or_eq_true, decide_eq_true_eq,
    List.all_eq_true] at inside
  refine {
    toRuleShaped := ruleShaped_of_checkRules rules
    decided := ?_
    returns := ?_ }
  · intro number notStopped several
    rcases inside number with checked | isBare
    · exact (checked.resolve_left notStopped).1.resolve_left (by omega)
    · simp [isBare, State.bare] at several
  · intro number target rule follow precedence notStopped member
    rcases inside number with checked | isBare
    · simpa using (checked.resolve_left notStopped).2 _ member
    · simp [isBare, State.bare] at member

end Network

end GrammarService
