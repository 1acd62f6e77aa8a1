import GrammarService.Proofs.Network.Coherent
import GrammarService.Proofs.Network.Shape

namespace GrammarService

/-!
# Walks through a network with returns

A place is a state together with the states that the rules in progress return to. Free steps lead
from place to place without a token: along free edges, into rules and out of them. Reading goes
along free steps and consuming edges.

What is below the returns of a place does not matter to a walk that does not come down to it, so
a walk inside a rule invocation is one that begins without returns.
-/

namespace Edge

/-- Whether the edge can be crossed on a condition only. -/
def isGuarded : Edge → Bool
  | .predicate .. | .precedence .. => true
  | _ => false

end Edge

/-- A state and the states that the rules in progress return to, innermost first. -/
structure Place where
  state : Nat
  returns : List Nat
  deriving DecidableEq

/-- A place with further returns below its own. -/
def Place.above
    (place : Place)
    (base : List Nat) :
    Place :=
  ⟨place.state, place.returns ++ base⟩

namespace Network

variable {network : Network}

/-- A step that needs no token. -/
inductive FreeStep (network : Network) : Place → Place → Prop where
  | edge
      {number : Nat}
      {returns : List Nat}
      {edge : Edge}
      (inside : (network.state number).kind ≠ .ruleStop)
      (present : edge ∈ (network.state number).edges)
      (free : edge.isFree = true) :
      FreeStep network ⟨number, returns⟩ ⟨edge.target, returns⟩
  | call
      {number target rule follow : Nat}
      {precedence : Int}
      {returns : List Nat}
      (inside : (network.state number).kind ≠ .ruleStop)
      (present : Edge.call target rule precedence follow ∈ (network.state number).edges) :
      FreeStep network ⟨number, returns⟩ ⟨target, follow :: returns⟩
  | leave
      {number follow : Nat}
      {returns : List Nat}
      (stopped : (network.state number).kind = .ruleStop) :
      FreeStep network ⟨number, follow :: returns⟩ ⟨follow, returns⟩

/--
A step over a token of the given type. As for predictions, the vocabulary that negated sets and
wildcards are about begins with type 0.
-/
inductive TokenStep (network : Network) (type : Int) : Place → Place → Prop where
  | edge
      {number : Nat}
      {returns : List Nat}
      {edge : Edge}
      (inside : (network.state number).kind ≠ .ruleStop)
      (present : edge ∈ (network.state number).edges)
      (consumes : edge.consumes type 0 network.maxTokenType = true) :
      TokenStep network type ⟨number, returns⟩ ⟨edge.target, returns⟩

/-- Walks of so many free steps. -/
inductive FreeWalk (network : Network) : (steps : Nat) → Place → Place → Prop where
  | stay
      {place : Place} :
      FreeWalk network 0 place place
  | step
      {steps : Nat}
      {first second last : Place}
      (step : FreeStep network first second)
      (rest : FreeWalk network steps second last) :
      FreeWalk network (steps + 1) first last

/-- Walks over tokens of the given types, with free steps between them. -/
inductive Reads (network : Network) : Place → List Int → Place → Prop where
  | stay
      {place : Place} :
      Reads network place [] place
  | free
      {first second last : Place}
      {types : List Int}
      (step : FreeStep network first second)
      (rest : Reads network second types last) :
      Reads network first types last
  | token
      {first second last : Place}
      {type : Int}
      {types : List Int}
      (step : TokenStep network type first second)
      (rest : Reads network second types last) :
      Reads network first (type :: types) last

/-- No step without a token leads on from a place. -/
def Rests
    (network : Network)
    (place : Place) :
    Prop :=
  ∀ {next : Place}, ¬ FreeStep network place next

/--
No walk inside a rule invocation comes back to a state with the same returns without a token, and
none enters a rule again while it is still inside it.
-/
structure NonLooping (network : Network) : Prop where
  comesBack :
    ∀ {number steps : Nat},
      ¬ FreeWalk network (steps + 1) ⟨number, []⟩ ⟨number, []⟩
  reenters :
    ∀ {rule steps target follow : Nat} {precedence : Int} {place : Place},
      FreeWalk network steps ⟨network.startOf rule, []⟩ place →
        (network.state place.state).kind ≠ .ruleStop →
          Edge.call target rule precedence follow ∉ (network.state place.state).edges

/--
No walk inside a rule invocation comes back to a state with the same returns without a token, and
none enters a rule again, by the state it starts in, while it is still inside it.
-/
structure Acyclic (network : Network) : Prop where
  comesBack :
    ∀ {number steps : Nat},
      ¬ FreeWalk network (steps + 1) ⟨number, []⟩ ⟨number, []⟩
  reenters :
    ∀ {start steps rule follow : Nat} {precedence : Int} {place : Place},
      FreeWalk network steps ⟨start, []⟩ place →
        (network.state place.state).kind ≠ .ruleStop →
          Edge.call start rule precedence follow ∉ (network.state place.state).edges

/-- Where calls lead to the starts of their rules, rules are known by their starts. -/
theorem NonLooping.acyclic
    (nonLooping : network.NonLooping)
    (shaped : network.RuleShaped) :
    network.Acyclic where
  comesBack := nonLooping.comesBack
  reenters := by
    intro start steps rule follow precedence place walk inside present
    rw [shaped.callTarget present] at walk
    exact nonLooping.reenters walk inside present

/-- No edge of the network is guarded, and no rule is left-recursive. -/
structure Plain (network : Network) : Prop where
  unguarded :
    ∀ {number : Nat} {edge : Edge},
      edge ∈ (network.state number).edges → edge.isGuarded = false
  notRecursive :
    ∀ {rule : Nat}, rule < network.ruleCount → network.isLeftRecursive rule = false

/-- A state that has an edge is in its network. -/
theorem lt_size_of_mem_edges
    {number : Nat}
    {edge : Edge}
    (present : edge ∈ (network.state number).edges) :
    number < network.states.size := by
  by_contra outside
  rw [state_of_size_le (Nat.le_of_not_lt outside)] at present
  cases present

/-- Whether no edge is guarded and no rule is left-recursive. -/
def checkPlain (network : Network) : Bool :=
  ((List.range network.states.size).all fun number =>
      (network.state number).edges.all fun edge => !edge.isGuarded) &&
    (List.range network.ruleCount).all fun rule => !network.isLeftRecursive rule

/-- The check of plain networks can be trusted. -/
theorem plain_of_checkPlain
    (checked : network.checkPlain = true) :
    network.Plain := by
  simp only [checkPlain, Bool.and_eq_true, List.all_eq_true, List.mem_range, Bool.not_eq_true']
    at checked
  refine ⟨?_, fun inRules => checked.2 _ inRules⟩
  intro number edge member
  exact checked.1 number (lt_size_of_mem_edges member) edge member

/-- Without left-recursive rules there are no precedence loops. -/
theorem Plain.precedenceDecision_eq
    (plain : network.Plain)
    (coherent : network.Coherent)
    (number : Nat) :
    (network.state number).precedenceDecision = false := by
  by_contra decides
  have isLoop := coherent.precedenceDecision (by simpa using decides)
  simp only [decidesPrecedence, Bool.and_eq_true] at isLoop
  obtain ⟨⟨_, recursive⟩, _⟩ := isLoop
  split at recursive
  · rename_i start isStart
    obtain ⟨rule, _, isStart⟩ := Option.bind_eq_some_iff.mp isStart
    obtain ⟨inBounds, rfl⟩ := Array.getElem?_eq_some_iff.mp isStart
    have notRecursive := plain.notRecursive inBounds
    simp only [isLeftRecursive, state, Array.getD_eq_getD_getElem?,
      Array.getElem?_eq_getElem inBounds, Option.getD_some] at notRecursive
    simp only [Array.getD_eq_getD_getElem?] at recursive
    rw [notRecursive] at recursive
    cases recursive
  · cases recursive

/--
A place that rests there counts for predictions without the real rule invocations: it is not at the
end of a rule that is called from somewhere, behind which such predictions go on to the callers.
-/
def Counts
    (network : Network)
    (number : Nat) :
    Prop :=
  (network.state number).kind = .ruleStop → (network.state number).edges = []

namespace Rests

variable {number : Nat} {returns : List Nat}

/-- The end of a rule rests where there is nothing to return to. -/
theorem iff_of_stopped
    (stopped : (network.state number).kind = .ruleStop) :
    network.Rests ⟨number, returns⟩ ↔ returns = [] := by
  constructor
  · intro rests
    cases returns with
    | nil => rfl
    | cons follow outer => exact absurd (.leave stopped) rests
  · rintro rfl next step
    cases step with
    | edge inside => exact inside stopped
    | call inside => exact inside stopped

/-- Inside a rule a walk rests where not all edges go without a token. -/
theorem iff_of_inside
    (shaped : network.RuleShaped)
    (coherent : network.Coherent)
    (inside : (network.state number).kind ≠ .ruleStop) :
    network.Rests ⟨number, returns⟩ ↔ (network.state number).epsilonOnly = false := by
  rw [coherent.epsilonOnly]
  constructor
  · intro rests
    by_contra free
    simp only [Bool.not_eq_false, Bool.and_eq_true, Bool.not_eq_true', List.isEmpty_eq_false_iff,
      List.all_eq_true] at free
    obtain ⟨edge, present⟩ := List.exists_mem_of_ne_nil _ free.1
    rcases Edge.isFree_or_call_of_isEpsilon (free.2 edge present) with
      isFree | ⟨target, rule, precedence, follow, rfl⟩
    · exact rests (.edge inside present isFree)
    · exact rests (.call inside present)
  · intro notFree next step
    have noneIsFree :
        ∀ edge ∈ (network.state number).edges, edge.isEpsilon = false := by
      rcases Bool.and_eq_false_iff.mp notFree with isEmpty | consumes
      · simp only [Bool.not_eq_false', List.isEmpty_iff] at isEmpty
        simp [isEmpty]
      · obtain ⟨edge, present, notEpsilon⟩ := List.all_eq_false.mp consumes
        have notFree : edge.isFree = false := by
          by_contra isFree
          exact notEpsilon (Edge.isEpsilon_of_isFree (by simpa using isFree))
        rw [shaped.alone present notFree]
        simpa using notEpsilon
    cases step with
    | edge _ present isFree =>
        have isEpsilon := Edge.isEpsilon_of_isFree isFree
        rw [noneIsFree _ present] at isEpsilon
        cases isEpsilon
    | call _ present => cases noneIsFree _ present
    | leave stopped => exact inside stopped

end Rests

namespace FreeStep

/-- What is below the returns of a place does not matter to a step. -/
theorem above
    {first second : Place}
    (step : FreeStep network first second)
    (base : List Nat) :
    FreeStep network (first.above base) (second.above base) := by
  cases step with
  | edge inside present free => exact .edge inside present free
  | call inside present => exact .call inside present
  | leave stopped => exact .leave stopped

/-- A step from above some returns stays above them, or takes the first of them. -/
theorem cases_above
    {first second : Place}
    {base : List Nat}
    (step : FreeStep network (first.above base) second) :
    (∃ behind, FreeStep network first behind ∧ second = behind.above base) ∨
      ((network.state first.state).kind = .ruleStop ∧ first.returns = [] ∧
        base = second.state :: second.returns) := by
  obtain ⟨number, returns⟩ := first
  simp only [Place.above] at step
  generalize isAll : returns ++ base = all at step
  cases step with
  | edge inside present free =>
      subst isAll
      exact .inl ⟨_, .edge inside present free, rfl⟩
  | call inside present =>
      subst isAll
      exact .inl ⟨_, .call inside present, rfl⟩
  | leave stopped =>
      cases returns with
      | nil => exact .inr ⟨stopped, rfl, isAll⟩
      | cons follow outer =>
          simp only [List.cons_append, List.cons.injEq] at isAll
          obtain ⟨rfl, rfl⟩ := isAll
          exact .inl ⟨⟨follow, outer⟩, .leave stopped, rfl⟩

end FreeStep

namespace FreeWalk

variable {steps : Nat} {first second last : Place}

theorem append
    {more : Nat}
    (walk : FreeWalk network steps first second)
    (rest : FreeWalk network more second last) :
    FreeWalk network (steps + more) first last := by
  induction walk with
  | stay => simpa using rest
  | step step _ inductionHypothesis =>
      have later := inductionHypothesis rest
      rw [Nat.add_right_comm]
      exact .step step later

theorem single
    (step : FreeStep network first last) :
    FreeWalk network 1 first last :=
  .step step .stay

theorem snoc
    (walk : FreeWalk network steps first second)
    (step : FreeStep network second last) :
    FreeWalk network (steps + 1) first last :=
  walk.append (single step)

/-- What is below the returns of a place does not matter to a walk. -/
theorem above
    (walk : FreeWalk network steps first last)
    (base : List Nat) :
    FreeWalk network steps (first.above base) (last.above base) := by
  induction walk with
  | stay => exact .stay
  | step step _ inductionHypothesis => exact .step (step.above base) inductionHypothesis

/-- A walk from above some returns stays above them, or comes down to them and takes the first. -/
theorem cases_above
    {base : List Nat}
    (walk : FreeWalk network steps (first.above base) last) :
    (∃ behind, FreeWalk network steps first behind ∧ last = behind.above base) ∨
      ∃ inner outer stop follow below,
        steps = inner + 1 + outer ∧ base = follow :: below ∧
          FreeWalk network inner first ⟨stop, []⟩ ∧
          (network.state stop).kind = .ruleStop ∧
          FreeWalk network outer ⟨follow, below⟩ last := by
  induction steps generalizing first with
  | zero =>
      cases walk
      exact .inl ⟨first, .stay, rfl⟩
  | succ steps inductionHypothesis =>
      cases walk with
      | step step rest =>
          rcases step.cases_above with ⟨behind, inner, rfl⟩ | ⟨stopped, bare, isBase⟩
          · rcases inductionHypothesis rest with
              ⟨end_, walk, isLast⟩ | ⟨before, after, stop, follow, below, isSum, isBase, walk, rest⟩
            · exact .inl ⟨end_, .step inner walk, isLast⟩
            · refine .inr ⟨before + 1, after, stop, follow, below, ?_, isBase, .step inner walk,
                rest⟩
              omega
          · obtain ⟨number, returns⟩ := first
            cases bare
            exact .inr ⟨0, steps, number, _, _, by omega, isBase, .stay, stopped, rest⟩

end FreeWalk

/--
The returns of a place are those of real rule invocations: each one is behind a call of the rule
that is left to it, and the outermost rule is the first one.
-/
def Nested
    (network : Network)
    (firstRule : Nat) :
    (number : Nat) → (returns : List Nat) → Prop
  | number, [] => (network.state number).rule = some firstRule
  | number, follow :: outer =>
      ∃ caller target rule precedence,
        Edge.call target rule precedence follow ∈ (network.state caller).edges ∧
          (network.state number).rule = some rule ∧ Nested network firstRule follow outer

namespace Nested

variable {firstRule number : Nat} {returns : List Nat}

/-- Only the rule of the state matters. -/
theorem congr
    {other : Nat}
    (nested : network.Nested firstRule number returns)
    (same : (network.state other).rule = (network.state number).rule) :
    network.Nested firstRule other returns := by
  cases returns with
  | nil => exact same.trans nested
  | cons follow outer =>
      obtain ⟨caller, target, rule, precedence, calls, isRule, outer⟩ := nested
      exact ⟨caller, target, rule, precedence, calls, same.trans isRule, outer⟩

/-- Free steps keep to real rule invocations. -/
theorem freeStep
    (shaped : network.RuleShaped)
    (coherent : network.Coherent)
    (rejoins : network.Rejoins)
    {first last : Place}
    (nested : network.Nested firstRule first.state first.returns)
    (step : FreeStep network first last) :
    network.Nested firstRule last.state last.returns := by
  cases step with
  | @edge _ _ edge inside present free =>
      have notCall : edge.isCall = false := by
        cases edge <;> first | rfl | cases free
      exact nested.congr (shaped.joins inside present notCall)
  | @call number target rule follow precedence returns inside present =>
      have isStart : (network.state target).rule = some rule := by
        rw [shaped.callTarget present]
        exact shaped.startRule (coherent.call present).1
      exact ⟨number, target, rule, precedence, present, isStart,
        nested.congr (rejoins inside present)⟩
  | leave stopped =>
      obtain ⟨_, _, _, _, _, _, outer⟩ := nested
      exact outer

/-- Steps over tokens keep to real rule invocations. -/
theorem tokenStep
    (shaped : network.RuleShaped)
    {first last : Place}
    {type : Int}
    (nested : network.Nested firstRule first.state first.returns)
    (step : TokenStep network type first last) :
    network.Nested firstRule last.state last.returns := by
  cases step with
  | @edge _ _ edge inside present consumes =>
      have notCall : edge.isCall = false := by
        cases edge <;> first | rfl | cases consumes
      exact nested.congr (shaped.joins inside present notCall)

/-- Walks without a token keep to real rule invocations. -/
theorem freeWalk
    (shaped : network.RuleShaped)
    (coherent : network.Coherent)
    (rejoins : network.Rejoins)
    {first last : Place}
    {steps : Nat}
    (nested : network.Nested firstRule first.state first.returns)
    (walk : FreeWalk network steps first last) :
    network.Nested firstRule last.state last.returns := by
  induction walk with
  | stay => exact nested
  | step step _ inductionHypothesis =>
      exact inductionHypothesis (nested.freeStep shaped coherent rejoins step)

/-- The rule that ends at a place has an edge to where the place returns to. -/
theorem exists_return
    (shaped : network.RuleShaped)
    (coherent : network.Coherent)
    {follow : Nat}
    (stopped : (network.state number).kind = .ruleStop)
    (nested : network.Nested firstRule number (follow :: returns)) :
    ∃ edge ∈ (network.state number).edges, edge.isEpsilon = true ∧ edge.target = follow := by
  obtain ⟨caller, target, rule, precedence, calls, isRule, _⟩ := nested
  rw [shaped.onlyStop stopped isRule]
  exact coherent.returns calls

end Nested

namespace Acyclic

variable (acyclic : network.Acyclic)

include acyclic

/-- No walk without a token comes back to where it began, whatever the returns are. -/
theorem not_closed
    (returns : List Nat)
    (number steps : Nat) :
    ¬ FreeWalk network (steps + 1) ⟨number, returns⟩ ⟨number, returns⟩ := by
  -- By induction on the returns: a walk that comes down to them is turned to begin there.
  induction returns generalizing number steps with
  | nil => exact acyclic.comesBack
  | cons follow below inductionHypothesis =>
      intro walk
      have fromBase : FreeWalk network (steps + 1)
          (Place.above ⟨number, []⟩ (follow :: below)) ⟨number, follow :: below⟩ :=
        walk
      rcases fromBase.cases_above with
        ⟨⟨behind, returns⟩, inner, isLast⟩ |
        ⟨inner, outer, stop, follow', below', isSum, isBase, walkIn, stopped, walkOut⟩
      · simp only [Place.above, Place.mk.injEq, List.self_eq_append_left] at isLast
        obtain ⟨rfl, rfl⟩ := isLast
        exact acyclic.comesBack inner
      · cases isBase
        have back := (walkOut.append (walkIn.above (follow :: below))).snoc (.leave stopped)
        exact inductionHypothesis follow _ back

end Acyclic

/-- A step without a token leads to higher ranks, of the states to return to as well. -/
def Climbs
    (network : Network)
    (rank : Nat → Nat) :
    Prop :=
  ∀ {number : Nat} {edge : Edge},
    (network.state number).kind ≠ .ruleStop →
      edge ∈ (network.state number).edges →
        edge.isEpsilon = true →
          rank number < rank edge.target ∧ rank number < rank edge.next

/-- Whether the steps without a token from a state lead to higher ranks. -/
def checkClimbing
    (network : Network)
    (rank : Nat → Nat)
    (number : Nat) :
    Bool :=
  let state := network.state number
  decide (state.kind = .ruleStop) ||
    state.edges.all fun edge =>
      !edge.isEpsilon || (rank number < rank edge.target && rank number < rank edge.next)

/-- The check of ranks can be trusted. -/
theorem climbs_of_checkClimbing
    (rank : Nat → Nat)
    (checked : (List.range network.states.size).all (network.checkClimbing rank) = true) :
    network.Climbs rank := by
  intro number edge inside member epsilon
  have checkedHere :=
    List.all_eq_true.mp checked number (List.mem_range.mpr (lt_size_of_mem_edges member))
  simp only [checkClimbing, inside, decide_false, Bool.false_or, List.all_eq_true] at checkedHere
  simpa [epsilon] using checkedHere edge member

/-- A walk that climbs does not come back. -/
theorem Climbs.acyclic
    {rank : Nat → Nat}
    (climbs : network.Climbs rank) :
    network.Acyclic := by
  -- A walk from a state never comes to a lower rank, and one of some steps not even to the same.
  have higher :
      ∀ (bound : Nat) {steps : Nat} {first last : Place},
        FreeWalk network steps first last →
          (∀ other ∈ first.state :: first.returns, bound ≤ rank other) →
            ∀ other ∈ last.state :: last.returns, bound ≤ rank other := by
    intro bound steps first last walk
    induction walk with
    | stay => exact id
    | step step _ inductionHypothesis =>
        intro above
        refine inductionHypothesis ?_
        cases step with
        | edge inside present free =>
            have further := (climbs inside present (Edge.isEpsilon_of_isFree free)).1
            intro other member
            rcases List.mem_cons.mp member with rfl | isReturn
            · exact Nat.le_trans (above _ List.mem_cons_self) (Nat.le_of_lt further)
            · exact above other (List.mem_cons_of_mem _ isReturn)
        | call inside present =>
            obtain ⟨further, follow⟩ := climbs inside present rfl
            have here := above _ List.mem_cons_self
            intro other member
            rcases List.mem_cons.mp member with rfl | member
            · exact Nat.le_trans here (Nat.le_of_lt further)
            · rcases List.mem_cons.mp member with rfl | isReturn
              · exact Nat.le_trans here (Nat.le_of_lt follow)
              · exact above other (List.mem_cons_of_mem _ isReturn)
        | leave stopped =>
            exact fun other member => above other (List.mem_cons_of_mem _ member)
  refine ⟨?_, ?_⟩
  · intro number steps walk
    cases walk with
    | step step rest =>
        have above :
            ∀ other ∈ number :: [], rank number + 1 ≤ rank other := by
          refine higher (rank number + 1) rest ?_
          cases step with
          | edge inside present free =>
              simpa using (climbs inside present (Edge.isEpsilon_of_isFree free)).1
          | call inside present =>
              obtain ⟨further, follow⟩ := climbs inside present rfl
              simpa using ⟨further, follow⟩
        have := above number (by simp)
        omega
  · intro start steps rule follow precedence place walk inside present
    have above := higher (rank start) walk (by simp) place.state (by simp)
    have further : rank place.state < rank start := (climbs inside present rfl).1
    omega

/-- Where calls lead to the starts of their rules, it is enough to know the rules by those. -/
theorem Acyclic.nonLooping
    (acyclic : network.Acyclic)
    (shaped : network.RuleShaped) :
    network.NonLooping where
  comesBack := acyclic.comesBack
  reenters := by
    intro rule steps target follow precedence place walk inside present
    rw [← shaped.callTarget present] at walk
    exact acyclic.reenters walk inside present

end Network

end GrammarService
