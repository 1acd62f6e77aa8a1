import GrammarService.Proofs.Network.Coherent
import GrammarService.Proofs.Network.Places
import GrammarService.Proofs.Prediction.Conditions

namespace GrammarService

/-!
# The conditions that a way can note

A way through a network may note the condition of each guarded edge that it crosses, and cross the
same edges again and again. Whatever it had noted to begin with, it can only come to so many
conditions: from the first guarded edge on, each is known by operands that are among those of the
beginning and the conditions of the network.
-/

namespace Edge

/-- The condition on which a guarded edge is crossed. -/
def guard? : Edge → Option Condition
  | .predicate _ rule index contextDependent => some (.predicate rule index contextDependent)
  | .precedence _ highest => some (.precedence highest)
  | _ => none

end Edge

/-- A condition guards an edge of the network. -/
def Network.Guards
    (network : Network)
    (condition : Condition) :
    Prop :=
  ∃ number, ∃ edge ∈ (network.state number).edges, edge.guard? = some condition

/-- A network has finitely many guards. -/
theorem Network.finite_guards (network : Network) : {guard | network.Guards guard}.Finite := by
  refine (List.finite_toSet ((List.range network.states.size).flatMap fun number =>
    (network.state number).edges.filterMap Edge.guard?)).subset ?_
  rintro guard ⟨number, edge, present, isGuard⟩
  exact List.mem_flatMap.mpr ⟨number, List.mem_range.mpr (lt_size_of_mem_edges present),
    List.mem_filterMap.mpr ⟨edge, present, isGuard⟩⟩

namespace Condition

open Connective

/-- The conditions that a way can come to that has noted a condition to begin with. -/
inductive NotedFrom
    (network : Network)
    (first : Condition) :
    Condition → Prop where
  | first : NotedFrom network first first
  | both
      {condition guard : Condition}
      (noted : NotedFrom network first condition)
      (guards : network.Guards guard) :
      NotedFrom network first (condition.both guard)

/-- A condition is a conjunction of some of the given ones, each of them once and in order. -/
structure IsOver
    (among : Set Condition)
    (condition : Condition) :
    Prop where
  ascend : Ascend (conjunction.parts condition)
  parts : ∀ operand ∈ conjunction.parts condition, operand ∈ among
  isWhole : conjunction.whole (conjunction.parts condition) = condition

variable {network : Network} {first condition guard : Condition} {among : Set Condition}

/-- A guard is no conjunction and does not always hold. -/
theorem not_conjunction_of_guards
    (guards : network.Guards guard) :
    (∀ operands, guard ≠ .allOf operands) ∧ guard ≠ .always := by
  obtain ⟨number, edge, present, isGuard⟩ := guards
  cases edge <;> cases isGuard <;> simp

/-- Joined with a guard, a condition keeps a part that is no conjunction. -/
theorem exists_mem_reduce_of_guards
    (guards : network.Guards guard)
    {operands : List Condition}
    (member : guard ∈ operands) :
    ∃ kept ∈ conjunction.reduce operands, ∀ inner, kept ≠ .allOf inner := by
  obtain ⟨number, edge, present, isGuard⟩ := guards
  cases edge with
  | predicate =>
      cases isGuard
      exact ⟨_, mem_reduce_iff.mpr ⟨member, by simp⟩, by simp⟩
  | precedence =>
      cases isGuard
      obtain ⟨kept, isKept, -⟩ := exists_mem_reduce conjunction member
      exact ⟨_, isKept, by simp⟩
  | _ => cases isGuard

/-- A guard is a conjunction of itself. -/
theorem isOver_guard
    (guards : network.Guards guard)
    (isAmong : guard ∈ among) :
    IsOver among guard := by
  have parts := conjunction.parts_other (not_conjunction_of_guards guards).1
  exact {
    ascend := parts ▸ List.pairwise_singleton _ _
    parts := by simpa [parts] using isAmong
    isWhole := by rw [parts]; rfl }

/-- A condition joined with a guard is a conjunction of parts of both. -/
theorem isOver_join
    (guards : network.Guards guard)
    (isAmong : guard ∈ among)
    (partsAreAmong : ∀ operand ∈ conjunction.parts condition, operand ∈ among) :
    IsOver among (conjunction.join condition guard) := by
  have guardParts := conjunction.parts_other (not_conjunction_of_guards guards).1
  have isOperand : guard ∈ conjunction.union condition guard := by simp [guardParts]
  obtain ⟨kept, isKept, keptPlain⟩ := exists_mem_reduce_of_guards guards isOperand
  -- One of the operands is no conjunction, so a single operand is its own part.
  have parts :
      conjunction.parts (conjunction.join condition guard) =
        conjunction.reduce (conjunction.union condition guard) := by
    rw [join]
    rcases whole_cases conjunction (List.ne_nil_of_mem isKept) with
      ⟨single, isSingle, isWhole⟩ | ⟨-, isWhole⟩
    · rw [isSingle, List.mem_singleton] at isKept
      rw [isWhole, isSingle, ← isKept]
      exact conjunction.parts_other keptPlain
    · rw [isWhole]
      exact conjunction.parts_wrap _
  refine ⟨parts ▸ ascend_reduce ascend_union, ?_, by rw [parts]; rfl⟩
  rw [parts]
  intro operand member
  rcases mem_union_iff.mp (mem_reduce_iff.mp member).1 with ofCondition | ofGuard
  · exact partsAreAmong operand ofCondition
  · rw [guardParts, List.mem_singleton] at ofGuard
    exact ofGuard ▸ isAmong

/-- What a way comes to note is the beginning, or a conjunction of its parts and of guards. -/
theorem NotedFrom.eq_or_isOver
    (noted : NotedFrom network first condition) :
    condition = first ∨
      IsOver ({operand | operand ∈ conjunction.parts first} ∪ {guard | network.Guards guard})
        condition := by
  induction noted with
  | first => exact .inl rfl
  | @both condition guard _ guards inductionHypothesis =>
      right
      have isAmong :
          guard ∈
            {operand | operand ∈ conjunction.parts first} ∪ {guard | network.Guards guard} :=
        .inr guards
      by_cases isAlways : condition = .always
      · rw [isAlways, always_both]
        exact isOver_guard guards isAmong
      · rw [both_eq_join isAlways (not_conjunction_of_guards guards).2]
        refine isOver_join guards isAmong ?_
        rcases inductionHypothesis with rfl | isOver
        · exact fun operand member => .inl member
        · exact isOver.parts

/-- There are finitely many conjunctions of finitely many conditions, each once and in order. -/
theorem finite_isOver
    (finite : among.Finite) :
    {condition | IsOver among condition}.Finite := by
  refine Set.Finite.of_injOn
    (f := fun condition => {operand | operand ∈ conjunction.parts condition})
    (t := {operands | operands ⊆ among}) ?_ ?_ finite.finite_subsets
  · intro condition isOver
    exact isOver.parts
  · intro condition isOver other otherIsOver same
    have sameParts : conjunction.parts condition = conjunction.parts other :=
      isOver.ascend.eq_of_mem_iff otherIsOver.ascend fun operand =>
        Set.ext_iff.mp same operand
    rw [← isOver.isWhole, sameParts, otherIsOver.isWhole]

/-- A way can only come to so many conditions, whatever it has noted to begin with. -/
theorem finite_notedFrom
    (network : Network)
    (first : Condition) :
    {condition | NotedFrom network first condition}.Finite := by
  have finite :=
    finite_isOver ((List.finite_toSet (conjunction.parts first)).union network.finite_guards)
  refine (finite.insert first).subset fun condition noted => ?_
  rcases noted.eq_or_isOver with rfl | isOver
  · exact Set.mem_insert condition _
  · exact Set.mem_insert_of_mem first isOver

end Condition

end GrammarService
