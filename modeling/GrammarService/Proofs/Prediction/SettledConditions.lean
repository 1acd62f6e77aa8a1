import GrammarService.Proofs.Prediction.Conditions

namespace GrammarService

/-!
# Settling conditions at a precedence

What is left of a condition once the precedence of the rule invocation is known speaks of the
conditions written in the grammar only. Whichever of those are fulfilled, it holds just where the
whole condition held at that precedence; and nothing is left just where the condition fails although
all of them count as fulfilled.
-/

namespace Condition

variable {condition first second : Condition} {operands : List Condition} {precedence : Int}

/-- Which of the conditions written in the grammar are fulfilled. -/
abbrev Assignment :=
  (rule : Nat) → (index : Int) → (contextDependent : Bool) → Bool

mutual

/-- Whether the condition holds at an invocation precedence under an assignment. -/
def holdsUnder
    (fulfilled : Assignment)
    (precedence : Int) :
    Condition → Bool
  | .always => true
  | .predicate rule index contextDependent => fulfilled rule index contextDependent
  | .precedence highest => decide (precedence ≤ highest)
  | .allOf operands => allHoldUnder fulfilled precedence operands
  | .anyOf operands => anyHoldsUnder fulfilled precedence operands

/-- Whether all conditions of a list hold. -/
def allHoldUnder
    (fulfilled : Assignment)
    (precedence : Int) :
    List Condition → Bool
  | [] => true
  | operand :: operands =>
      holdsUnder fulfilled precedence operand && allHoldUnder fulfilled precedence operands

/-- Whether a condition of a list holds. -/
def anyHoldsUnder
    (fulfilled : Assignment)
    (precedence : Int) :
    List Condition → Bool
  | [] => false
  | operand :: operands =>
      holdsUnder fulfilled precedence operand || anyHoldsUnder fulfilled precedence operands

end

/-- The assignment that prediction goes by. -/
def allFulfilled : Assignment :=
  fun _ _ _ => true

mutual

/-- Prediction takes all conditions written in the grammar for fulfilled. -/
theorem holdsUnder_allFulfilled :
    (condition : Condition) →
      condition.holdsUnder allFulfilled precedence = condition.holdsAt precedence
  | .always => rfl
  | .predicate .. => rfl
  | .precedence _ => rfl
  | .allOf operands => by rw [holdsUnder, holdsAt, allHoldUnder_allFulfilled operands]
  | .anyOf operands => by rw [holdsUnder, holdsAt, anyHoldsUnder_allFulfilled operands]

theorem allHoldUnder_allFulfilled :
    (operands : List Condition) →
      allHoldUnder allFulfilled precedence operands = allHoldAt precedence operands
  | [] => rfl
  | operand :: operands => by
      rw [allHoldUnder, allHoldAt, holdsUnder_allFulfilled operand,
        allHoldUnder_allFulfilled operands]

theorem anyHoldsUnder_allFulfilled :
    (operands : List Condition) →
      anyHoldsUnder allFulfilled precedence operands = anyHoldsAt precedence operands
  | [] => rfl
  | operand :: operands => by
      rw [anyHoldsUnder, anyHoldsAt, holdsUnder_allFulfilled operand,
        anyHoldsUnder_allFulfilled operands]

end

/-- A condition in which there is no precedence condition at any depth. -/
inductive IsSettled : Condition → Prop
  | always : IsSettled .always
  | predicate
      (rule : Nat)
      (index : Int)
      (contextDependent : Bool) :
      IsSettled (.predicate rule index contextDependent)
  | allOf
      {operands : List Condition}
      (each : ∀ operand ∈ operands, IsSettled operand) :
      IsSettled (.allOf operands)
  | anyOf
      {operands : List Condition}
      (each : ∀ operand ∈ operands, IsSettled operand) :
      IsSettled (.anyOf operands)

section Assignments

variable {fulfilled : Assignment}

@[simp] theorem holdsUnder_allOf :
    (allOf operands).holdsUnder fulfilled precedence =
      operands.all (holdsUnder fulfilled precedence) := by
  rw [holdsUnder]
  induction operands with
  | nil => rfl
  | cons head tail inductionHypothesis => rw [allHoldUnder, List.all_cons, inductionHypothesis]

@[simp] theorem holdsUnder_anyOf :
    (anyOf operands).holdsUnder fulfilled precedence =
      operands.any (holdsUnder fulfilled precedence) := by
  rw [holdsUnder]
  induction operands with
  | nil => rfl
  | cons head tail inductionHypothesis => rw [anyHoldsUnder, List.any_cons, inductionHypothesis]

theorem decides_conjunction :
    Connective.conjunction.Decides (holdsUnder fulfilled precedence) where
  wrap operands := by simp [Connective.conjunction]
  keep := by
    intro first second fails
    change decide (precedence ≤ second) = false at fails
    change decide (precedence ≤ min first second) = false
    rw [decide_eq_false_iff_not, not_le] at *
    exact (min_le_right first second).trans_lt fails

theorem decides_disjunction :
    Connective.disjunction.Decides (holdsUnder fulfilled precedence) where
  wrap operands := by simp [Connective.disjunction]
  keep := by
    intro first second holds
    change decide (precedence ≤ second) = true at holds
    change decide (precedence ≤ max first second) = true
    rw [decide_eq_true_eq] at *
    exact holds.trans (le_max_right first second)

/-- What always holds can be left out of a conjunction. -/
theorem all_filter_ne_always :
    (operands.filter (· ≠ .always)).all (holdsUnder fulfilled precedence) =
      operands.all (holdsUnder fulfilled precedence) := by
  induction operands with
  | nil => rfl
  | cons head tail inductionHypothesis =>
      by_cases isAlways : head = .always
      · simp only [isAlways, ne_eq, not_true_eq_false, decide_false, Bool.false_eq_true,
          not_false_eq_true, List.filter_cons_of_neg, List.all_cons, holdsUnder, Bool.true_and]
        exact inductionHypothesis
      · rw [List.filter_cons_of_pos (by simpa using isAlways), List.all_cons, List.all_cons,
          inductionHypothesis]

end Assignments

/--
Joining settled conditions gives a settled one, if the connective leaves settled conditions settled
when it takes them apart and when it wraps them: no operand is new.
-/
theorem isSettled_join
    {connective : Connective}
    (wraps :
      ∀ {operands : List Condition},
        (∀ operand ∈ operands, operand.IsSettled) → (connective.wrap operands).IsSettled)
    (parts :
      ∀ {condition : Condition},
        condition.IsSettled → ∀ operand ∈ connective.parts condition, operand.IsSettled)
    (firstSettled : first.IsSettled)
    (secondSettled : second.IsSettled) :
    (connective.join first second).IsSettled := by
  have each :
      ∀ operand ∈ connective.reduce (connective.union first second), operand.IsSettled := by
    intro operand member
    rcases Connective.mem_union_iff.mp (Connective.mem_reduce_iff.mp member).1 with
      isFirst | isSecond
    · exact parts firstSettled operand isFirst
    · exact parts secondSettled operand isSecond
  rw [Connective.join, Connective.whole.eq_def]
  split
  · rename_i single isSingle
    exact each single (isSingle ▸ List.mem_singleton_self single)
  · exact wraps each

namespace IsSettled

theorem conjuncts
    (settled : condition.IsSettled) :
    ∀ operand ∈ condition.conjuncts, operand.IsSettled := by
  cases settled with
  | allOf each => exact each
  | always => simpa [Condition.conjuncts] using .always
  | predicate => simpa [Condition.conjuncts] using .predicate ..
  | anyOf each => simpa [Condition.conjuncts] using .anyOf each

theorem disjuncts
    (settled : condition.IsSettled) :
    ∀ operand ∈ condition.disjuncts, operand.IsSettled := by
  cases settled with
  | anyOf each => exact each
  | always => simpa [Condition.disjuncts] using .always
  | predicate => simpa [Condition.disjuncts] using .predicate ..
  | allOf each => simpa [Condition.disjuncts] using .allOf each

theorem both
    (firstSettled : first.IsSettled)
    (secondSettled : second.IsSettled) :
    (first.both second).IsSettled := by
  by_cases firstAlways : first = .always
  · simpa [firstAlways] using secondSettled
  by_cases secondAlways : second = .always
  · simpa [secondAlways] using firstSettled
  rw [both_eq_join firstAlways secondAlways]
  exact isSettled_join .allOf conjuncts firstSettled secondSettled

theorem either
    (firstSettled : first.IsSettled)
    (secondSettled : second.IsSettled) :
    (first.either second).IsSettled := by
  by_cases firstAlways : first = .always
  · simpa [firstAlways] using .always
  by_cases secondAlways : second = .always
  · simpa [secondAlways] using .always
  rw [either_eq_join firstAlways secondAlways]
  exact isSettled_join .anyOf disjuncts firstSettled secondSettled

end IsSettled

/-- What is left of a condition at a precedence, if anything is. -/
inductive SettlesTo
    (precedence : Int)
    (condition : Condition) :
    Option Condition → Prop
  | nothing
      (fails : ∀ fulfilled, condition.holdsUnder fulfilled precedence = false) :
      SettlesTo precedence condition none
  | left
      {left : Condition}
      (holds : condition.holdsAt precedence = true)
      (isSettled : left.IsSettled)
      (agrees :
        ∀ fulfilled other,
          left.holdsUnder fulfilled other = condition.holdsUnder fulfilled precedence) :
      SettlesTo precedence condition (some left)

/-- Settling each of some operands drops those that fail. -/
theorem settleEachAt_eq_filterMap :
    settleEachAt precedence operands = operands.filterMap (settleAt? precedence) := by
  induction operands with
  | nil => rw [settleEachAt, List.filterMap_nil]
  | cons head tail inductionHypothesis =>
      rw [settleEachAt, inductionHypothesis]
      cases isHead : head.settleAt? precedence <;> simp [isHead]

/-- Settling all of some operands fails for one of them, or drops none. -/
theorem settleAllAt?_cases :
    (settleAllAt? precedence operands = none ∧
        ∃ operand ∈ operands, operand.settleAt? precedence = none) ∨
      settleAllAt? precedence operands = some (operands.filterMap (settleAt? precedence)) ∧
        ∀ operand ∈ operands, operand.settleAt? precedence ≠ none := by
  induction operands with
  | nil => simp [settleAllAt?]
  | cons head tail inductionHypothesis =>
      rw [settleAllAt?]
      cases isHead : head.settleAt? precedence with
      | none => exact .inl ⟨rfl, head, List.mem_cons_self, isHead⟩
      | some left =>
          rcases inductionHypothesis with ⟨isNone, operand, member, fails⟩ | ⟨isSome, each⟩
          · rw [isNone]
            exact .inl ⟨rfl, operand, List.mem_cons_of_mem head member, fails⟩
          · rw [isSome, List.filterMap_cons_some isHead]
            refine .inr ⟨rfl, List.forall_mem_cons.mpr ⟨?_, each⟩⟩
            simp [isHead]

/-- What settled conditions are joined to one after the other is settled. -/
theorem IsSettled.foldl
    {join : Condition → Condition → Condition}
    (joins :
      ∀ {first second : Condition},
        first.IsSettled → second.IsSettled → (join first second).IsSettled)
    (firstSettled : first.IsSettled)
    (each : ∀ operand ∈ operands, operand.IsSettled) :
    (operands.foldl join first).IsSettled :=
  List.foldlRecOn operands join firstSettled
    fun _ settled operand member => joins settled (each operand member)

section Operands

variable
  (settle : ∀ operand ∈ operands, SettlesTo precedence operand (operand.settleAt? precedence))
  {fulfilled : Assignment}
  {other : Int}

include settle

theorem isSettled_of_mem_filterMap :
    ∀ left ∈ operands.filterMap (settleAt? precedence), left.IsSettled := by
  intro left member
  obtain ⟨operand, isOperand, isLeft⟩ := List.mem_filterMap.mp member
  have settles := settle operand isOperand
  rw [isLeft] at settles
  cases settles with
  | left _ isSettled _ => exact isSettled

/-- Operands that fail count for nothing in a disjunction. -/
theorem any_filterMap :
    (operands.filterMap (settleAt? precedence)).any (holdsUnder fulfilled other) =
      operands.any (holdsUnder fulfilled precedence) := by
  induction operands with
  | nil => rfl
  | cons head tail inductionHypothesis =>
      obtain ⟨settlesHead, settleTail⟩ := List.forall_mem_cons.mp settle
      cases isHead : head.settleAt? precedence with
      | none =>
          rw [isHead] at settlesHead
          cases settlesHead with
          | nothing fails =>
              rw [List.filterMap_cons_none isHead, inductionHypothesis settleTail, List.any_cons,
                fails, Bool.false_or]
      | some left =>
          rw [isHead] at settlesHead
          cases settlesHead with
          | left _ _ agrees =>
              rw [List.filterMap_cons_some isHead, List.any_cons, List.any_cons,
                inductionHypothesis settleTail, agrees]

/-- Where no operand fails, all of them hold where all that is left of them holds. -/
theorem all_filterMap
    (noneFails : ∀ operand ∈ operands, operand.settleAt? precedence ≠ none) :
    (operands.filterMap (settleAt? precedence)).all (holdsUnder fulfilled other) =
      operands.all (holdsUnder fulfilled precedence) := by
  induction operands with
  | nil => rfl
  | cons head tail inductionHypothesis =>
      obtain ⟨settlesHead, settleTail⟩ := List.forall_mem_cons.mp settle
      obtain ⟨headStays, tailStays⟩ := List.forall_mem_cons.mp noneFails
      obtain ⟨left, isHead⟩ := Option.ne_none_iff_exists'.mp headStays
      rw [isHead] at settlesHead
      cases settlesHead with
      | left _ _ agrees =>
          rw [List.filterMap_cons_some isHead, List.all_cons, List.all_cons,
            inductionHypothesis settleTail tailStays, agrees]

/-- Operands that do not fail hold if all conditions of the grammar are fulfilled. -/
theorem holdsAt_of_stays
    {operand : Condition}
    (member : operand ∈ operands)
    (stays : operand.settleAt? precedence ≠ none) :
    operand.holdsAt precedence = true := by
  have settles := settle operand member
  cases isLeft : operand.settleAt? precedence with
  | none => exact absurd isLeft stays
  | some left =>
      rw [isLeft] at settles
      cases settles with
      | left holds _ _ => exact holds

/-- A conjunction is settled as its operands are. -/
theorem settlesTo_allOf :
    SettlesTo precedence (allOf operands) ((allOf operands).settleAt? precedence) := by
  rw [settleAt?]
  rcases @settleAllAt?_cases operands precedence with
    ⟨isNone, operand, member, operandFails⟩ | ⟨isSome, noneFails⟩
  · rw [isNone]
    refine .nothing fun fulfilled => ?_
    have settles := settle operand member
    rw [operandFails] at settles
    cases settles with
    | nothing fails =>
        rw [holdsUnder_allOf, List.all_eq_false]
        exact ⟨operand, member, by simp [fails]⟩
  · rw [isSome]
    have holds : (allOf operands).holdsAt precedence = true := by
      rw [← holdsUnder_allFulfilled, holdsUnder_allOf, List.all_eq_true]
      intro operand member
      rw [holdsUnder_allFulfilled]
      exact holdsAt_of_stays settle member (noneFails operand member)
    have isSettled := isSettled_of_mem_filterMap settle
    dsimp only
    split
    · rename_i same
      rw [same] at isSettled
      refine .left holds (.allOf isSettled) fun fulfilled other => ?_
      rw [holdsUnder_allOf, holdsUnder_allOf, ← all_filterMap settle noneFails, same]
    · refine .left holds (.foldl .both .always ?_) fun fulfilled other => ?_
      · exact fun left member => isSettled left (List.mem_of_mem_filter member)
      · rw [holds_foldl_both decides_conjunction rfl, List.all_cons, holdsUnder, Bool.true_and,
          all_filter_ne_always, all_filterMap settle noneFails, holdsUnder_allOf]

/-- A disjunction with operands is settled as its operands are. -/
theorem settlesTo_anyOf
    (nonempty : operands ≠ []) :
    SettlesTo precedence (anyOf operands) ((anyOf operands).settleAt? precedence) := by
  rw [settleAt?, settleEachAt_eq_filterMap]
  have isSettled := isSettled_of_mem_filterMap settle
  have agrees :
      ∀ fulfilled other,
        (operands.filterMap (settleAt? precedence)).any (holdsUnder fulfilled other) =
          (anyOf operands).holdsUnder fulfilled precedence := by
    intro fulfilled other
    rw [any_filterMap settle, holdsUnder_anyOf]
  have holds :
      operands.filterMap (settleAt? precedence) ≠ [] →
        (anyOf operands).holdsAt precedence = true := by
    intro hasLeft
    obtain ⟨left, member⟩ := List.exists_mem_of_ne_nil _ hasLeft
    obtain ⟨operand, isOperand, isLeft⟩ := List.mem_filterMap.mp member
    rw [← holdsUnder_allFulfilled, holdsUnder_anyOf, List.any_eq_true]
    refine ⟨operand, isOperand, ?_⟩
    rw [holdsUnder_allFulfilled]
    exact holdsAt_of_stays settle isOperand (by simp [isLeft])
  split
  · rename_i hasAlways
    refine .left (holds (List.ne_nil_of_mem hasAlways)) .always fun fulfilled other => ?_
    rw [← agrees fulfilled other, holdsUnder]
    exact (List.any_eq_true.mpr ⟨.always, hasAlways, by rw [holdsUnder]⟩).symm
  · split
    · rename_i same
      rw [same] at isSettled agrees holds
      refine .left (holds nonempty) (.anyOf isSettled) fun fulfilled other => ?_
      rw [← agrees fulfilled other, holdsUnder_anyOf]
    · generalize operands.filterMap (settleAt? precedence) = lefts at *
      cases lefts with
      | nil => exact .nothing fun fulfilled => (agrees fulfilled precedence).symm
      | cons left others =>
          obtain ⟨leftSettled, othersSettled⟩ := List.forall_mem_cons.mp isSettled
          refine .left (holds (List.cons_ne_nil _ _)) (.foldl .either leftSettled othersSettled)
            fun fulfilled other => ?_
          rw [holds_foldl_either decides_disjunction rfl, agrees]

end Operands

/-- Conditions of normal form are settled as they mean. -/
theorem IsNormal.settlesTo
    (normal : condition.IsNormal)
    (precedence : Int) :
    SettlesTo precedence condition (condition.settleAt? precedence) := by
  induction normal with
  | always =>
      rw [settleAt?]
      exact .left rfl .always fun _ _ => rfl
  | predicate =>
      rw [settleAt?]
      exact .left rfl (.predicate ..) fun _ _ => rfl
  | precedence =>
      rw [settleAt?]
      split
      · rename_i within
        refine .left ?_ .always fun fulfilled other => ?_ <;> simp [holdsAt, holdsUnder, within]
      · rename_i beyond
        exact .nothing fun fulfilled => by simp [holdsUnder, beyond]
  | allOf _ _ _ settle => exact settlesTo_allOf settle
  | anyOf _ several _ settle =>
      refine settlesTo_anyOf settle ?_
      rintro rfl
      simp at several

/--
Nothing is left of a condition that was built just where it fails. What is left of it otherwise is
free of precedence conditions, and holds just where the condition holds at the precedence, whichever
conditions of the grammar are fulfilled.
-/
theorem settling_keeps_meaning
    (built : condition.IsBuilt)
    (precedence : Int) :
    (condition.settleAt? precedence = none ↔ condition.holdsAt precedence = false) ∧
      ∀ left, condition.settleAt? precedence = some left →
        left.IsSettled ∧
          ∀ fulfilled other,
            left.holdsUnder fulfilled other = condition.holdsUnder fulfilled precedence := by
  have settles := built.isNormal.settlesTo precedence
  cases isLeft : condition.settleAt? precedence with
  | none =>
      rw [isLeft] at settles
      cases settles with
      | nothing fails =>
          have failsAt := holdsUnder_allFulfilled condition ▸ fails allFulfilled
          exact ⟨iff_of_true rfl failsAt, nofun⟩
  | some left =>
      rw [isLeft] at settles
      cases settles with
      | left holds isSettled agrees =>
          refine ⟨iff_of_false (by simp) (by simp [holds]), ?_⟩
          rintro _ ⟨⟩
          exact ⟨isSettled, agrees⟩

/-- Of the nested condition, one alternative survives at precedence 3, without its bound. -/
theorem nested_keeps_meaning :
    nested.IsBuilt ∧
      nested.settleAt? 3 = some (.predicate 0 1 false) ∧
        (predicate 0 1 false).IsSettled ∧
          ∀ fulfilled other,
            (predicate 0 1 false).holdsUnder fulfilled other = nested.holdsUnder fulfilled 3 :=
  have isLeft : nested.settleAt? 3 = some (.predicate 0 1 false) := by decide
  ⟨isBuilt_nested, isLeft, (settling_keeps_meaning isBuilt_nested 3).2 _ isLeft⟩

example : nested.settleAt? 5 = none := by decide

end Condition

end GrammarService
