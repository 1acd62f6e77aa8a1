import Mathlib
import GrammarService.Prediction.Condition

namespace GrammarService

/-!
# The algebra of conditions

Conditions are joined in a normal form: the operands of a conjunction or disjunction ascend, none of
them is of the same kind or always holds, and at most one is a precedence condition. So a condition
is known by its operands, and joining is a matter of sets of operands: the operands of both
conditions are put together, and of their precedence conditions the one that decides is kept.

From this follow the laws of semilattices, as equations between conditions, for conjunction and
disjunction alike; and joined conditions hold where they should.
-/

namespace Condition

mutual

/-- Comparing the other way round gives the opposite. -/
theorem order_swap : (first second : Condition) → (order first second).swap = order second first
  | .always, second => by
      cases second <;> simp [order, rank, Nat.compare_swap]
  | .predicate .., second => by
      cases second with
      | predicate => simp only [order, Ordering.swap_then, ← Std.OrientedOrd.eq_swap]
      | _ => simp [order, rank, Nat.compare_swap]
  | .precedence _, second => by
      cases second with
      | precedence => simp only [order, ← Std.OrientedOrd.eq_swap]
      | _ => simp [order, rank, Nat.compare_swap]
  | .allOf operands, second => by
      cases second with
      | allOf operands' => simpa only [order] using orderLists_swap operands operands'
      | _ => simp [order, rank, Nat.compare_swap]
  | .anyOf operands, second => by
      cases second with
      | anyOf operands' => simpa only [order] using orderLists_swap operands operands'
      | _ => simp [order, rank, Nat.compare_swap]

/-- Comparing lists the other way round gives the opposite. -/
theorem orderLists_swap :
    (first second : List Condition) → (orderLists first second).swap = orderLists second first
  | [], second => by
      cases second <;> simp [orderLists]
  | head :: tail, second => by
      cases second with
      | nil => simp [orderLists]
      | cons head' tail' =>
          simp only [orderLists, Ordering.swap_then, order_swap head head',
            orderLists_swap tail tail']

end

mutual

/-- What comes before a condition comes before all that the condition comes before. -/
theorem order_trans :
    (first second third : Condition) →
      order first second = .lt → order second third = .lt → order first third = .lt
  | .always, second, third => by
      cases second <;> cases third <;> simp [order, rank, Nat.compare_eq_lt]
  | .predicate rule index dependent, second, third => by
      cases second <;> cases third <;>
        simp [order, rank, Nat.compare_eq_lt, Ordering.then_eq_lt, Int.compare_eq_lt]
      rename_i rule' index' dependent' rule'' index'' dependent''
      have dependents :
          compare dependent dependent' = .lt →
            compare dependent' dependent'' = .lt → compare dependent dependent'' = .lt :=
        Std.TransCmp.lt_trans
      grind
  | .precedence _, second, third => by
      cases second <;> cases third <;> simp [order, rank, Nat.compare_eq_lt, Int.compare_eq_lt]
      omega
  | .allOf first, second, third => by
      cases second <;> cases third <;> simp [order, rank, Nat.compare_eq_lt]
      rename_i second third
      exact orderLists_trans first second third
  | .anyOf first, second, third => by
      cases second <;> cases third <;> simp [order, rank, Nat.compare_eq_lt]
      rename_i second third
      exact orderLists_trans first second third

/-- What comes before a list comes before all that the list comes before. -/
theorem orderLists_trans :
    (first second third : List Condition) →
      orderLists first second = .lt →
        orderLists second third = .lt → orderLists first third = .lt
  | [], second, third => by
      cases second <;> cases third <;> simp [orderLists]
  | head :: tail, second, third => by
      cases second with
      | nil => simp [orderLists]
      | cons head' tail' =>
          cases third with
          | nil => simp [orderLists]
          | cons head'' tail'' =>
              simp only [orderLists, Ordering.then_eq_lt, order_eq_iff]
              rintro (before | ⟨rfl, before⟩) (after | ⟨rfl, after⟩)
              · exact .inl (order_trans head head' head'' before after)
              · exact .inl before
              · exact .inl after
              · exact .inr ⟨rfl, orderLists_trans tail tail' tail'' before after⟩

end

/-- A condition stands before another one in the order of conditions. -/
def Precedes (first second : Condition) : Prop :=
  order first second = .lt

instance : Std.Irrefl Precedes where
  irrefl condition before := by
    rw [Precedes, (order_eq_iff condition condition).mpr rfl] at before
    cases before

instance : Std.Antisymm Precedes where
  antisymm first second before after := by
    unfold Precedes at *
    rw [← order_swap, before] at after
    cases after

/-- Conditions in ascending order, none of them twice. -/
def Ascend (operands : List Condition) : Prop :=
  operands.Pairwise Precedes

/-- Inserting a condition adds just that one. -/
@[simp] theorem mem_insert_iff
    {condition operand : Condition}
    {operands : List Condition} :
    condition ∈ insert operand operands ↔ condition = operand ∨ condition ∈ operands := by
  induction operands with
  | nil => simp [insert]
  | cons head tail inductionHypothesis =>
      rw [insert]
      split
      · simp
      · rename_i same
        simp [(order_eq_iff operand head).mp same]
      · simp only [List.mem_cons, inductionHypothesis]
        exact or_left_comm

/-- Inserting a condition keeps the order. -/
theorem Ascend.insert
    {operand : Condition}
    {operands : List Condition}
    (ascend : Ascend operands) :
    Ascend (Condition.insert operand operands) := by
  induction operands with
  | nil => exact List.pairwise_singleton _ _
  | cons head tail inductionHypothesis =>
      obtain ⟨before, ascendTail⟩ := List.pairwise_cons.mp ascend
      rw [Condition.insert]
      split
      · rename_i first
        refine List.pairwise_cons.mpr ⟨?_, ascend⟩
        intro other member
        rcases List.mem_cons.mp member with rfl | inTail
        · exact first
        · exact order_trans _ _ _ first (before other inTail)
      · exact ascend
      · rename_i last
        refine List.pairwise_cons.mpr ⟨?_, inductionHypothesis ascendTail⟩
        intro other member
        rcases mem_insert_iff.mp member with rfl | inTail
        · rwa [Precedes, ← order_swap, Ordering.swap_eq_lt]
        · exact before other inTail

/-- Inserting several conditions adds just those. -/
@[simp] theorem mem_insertAll_iff
    {condition : Condition}
    {operands into : List Condition} :
    condition ∈ insertAll operands into ↔ condition ∈ operands ∨ condition ∈ into := by
  induction operands generalizing into with
  | nil => simp [insertAll]
  | cons head tail inductionHypothesis =>
      have isInsertion : insertAll (head :: tail) into = insertAll tail (insert head into) := rfl
      rw [isInsertion, inductionHypothesis, mem_insert_iff, List.mem_cons]
      exact or_left_comm.trans or_assoc.symm

/-- Inserting several conditions keeps the order. -/
theorem Ascend.insertAll
    {operands into : List Condition}
    (ascend : Ascend into) :
    Ascend (Condition.insertAll operands into) := by
  induction operands generalizing into with
  | nil => exact ascend
  | cons head tail inductionHypothesis => exact inductionHypothesis ascend.insert

end Condition

/--
A way to join conditions: the kind of condition that holds its operands, and which of two bounds on
the precedence counts. One operand with the decisive truth value gives it to the whole.
-/
structure Connective where
  wrap : List Condition → Condition
  parts : Condition → List Condition
  keep : Int → Int → Int
  decisive : Bool
  parts_wrap : ∀ operands, parts (wrap operands) = operands
  parts_other : ∀ {condition}, (∀ operands, condition ≠ wrap operands) → parts condition = [condition]
  wrap_ne_always : ∀ operands, wrap operands ≠ .always
  wrap_ne_precedence : ∀ operands bound, wrap operands ≠ .precedence bound
  keep_comm : ∀ first second, keep first second = keep second first
  keep_assoc : ∀ first second third,
    keep (keep first second) third = keep first (keep second third)
  keep_cases : ∀ first second, keep first second = first ∨ keep first second = second
  holdsAt_wrap : ∀ precedence operands,
    (wrap operands).holdsAt precedence = decisive ↔
      ∃ operand ∈ operands, operand.holdsAt precedence = decisive
  holdsAt_keep : ∀ {precedence first second},
    (Condition.precedence second).holdsAt precedence = decisive →
      (Condition.precedence (keep first second)).holdsAt precedence = decisive

namespace Connective

open Condition

/-- All operands have to hold, so the lowest bound on the precedence counts. -/
def conjunction : Connective where
  wrap := .allOf
  parts := conjuncts
  keep := min
  decisive := false
  parts_wrap _ := rfl
  parts_other {condition} other := by
    cases condition with
    | allOf operands => exact absurd rfl (other operands)
    | _ => rfl
  wrap_ne_always := by simp
  wrap_ne_precedence := by simp
  keep_comm := min_comm
  keep_assoc := min_assoc
  keep_cases := min_choice
  holdsAt_wrap precedence operands := by
    rw [holdsAt]
    induction operands with
    | nil => simp [allHoldAt]
    | cons head tail inductionHypothesis =>
        rw [allHoldAt, Bool.and_eq_false_iff, inductionHypothesis]
        simp
  holdsAt_keep := by
    simp only [holdsAt, decide_eq_false_iff_not, not_le]
    intro _ _ _ fails
    exact (min_le_right _ _).trans_lt fails

/-- One operand has to hold, so the highest bound on the precedence counts. -/
def disjunction : Connective where
  wrap := .anyOf
  parts := disjuncts
  keep := max
  decisive := true
  parts_wrap _ := rfl
  parts_other {condition} other := by
    cases condition with
    | anyOf operands => exact absurd rfl (other operands)
    | _ => rfl
  wrap_ne_always := by simp
  wrap_ne_precedence := by simp
  keep_comm := max_comm
  keep_assoc := max_assoc
  keep_cases := max_choice
  holdsAt_wrap precedence operands := by
    rw [holdsAt]
    induction operands with
    | nil => simp [anyHoldsAt]
    | cons head tail inductionHypothesis =>
        rw [anyHoldsAt, Bool.or_eq_true, inductionHypothesis]
        simp
  holdsAt_keep := by
    simp only [holdsAt, decide_eq_true_eq]
    intro _ _ _ holds
    exact holds.trans (le_max_right _ _)

/-- The condition with the given operands. -/
def whole
    (connective : Connective) :
    List Condition → Condition
  | [single] => single
  | operands => connective.wrap operands

/-- Of the precedence conditions among some operands, keep the one that counts. -/
def reduce
    (connective : Connective)
    (operands : List Condition) :
    List Condition :=
  match operands.filterMap highest? with
  | [] => operands
  | first :: others =>
      Condition.insert (.precedence (others.foldl connective.keep first))
        (operands.filter fun operand => operand.highest?.isNone)

/-- The operands of two conditions together. -/
def union
    (connective : Connective)
    (first second : Condition) :
    List Condition :=
  insertAll (connective.parts second) (insertAll (connective.parts first) [])

/-- Join two conditions, neither of which always holds. -/
def join
    (connective : Connective)
    (first second : Condition) :
    Condition :=
  connective.whole (connective.reduce (connective.union first second))

/-- Operands as they are kept in a condition of normal form. -/
structure AreParts
    (connective : Connective)
    (operands : List Condition) :
    Prop where
  ascend : Ascend operands
  noneNested : ∀ inner, connective.wrap inner ∉ operands
  noneAlways : .always ∉ operands
  onePrecedence :
    ∀ {first second : Int},
      .precedence first ∈ operands → .precedence second ∈ operands → first = second

end Connective

namespace Condition

/--
The normal form of conditions. No conjunction or disjunction, at any depth, has an operand of its
own kind, fewer than two operands, or two precedence conditions among them.
-/
inductive IsNormal : Condition → Prop
  | always : IsNormal .always
  | predicate
      {rule : Nat}
      {index : Int}
      {contextDependent : Bool} :
      IsNormal (.predicate rule index contextDependent)
  | precedence
      {highest : Int} :
      IsNormal (.precedence highest)
  | allOf
      {operands : List Condition}
      (areParts : Connective.conjunction.AreParts operands)
      (several : 2 ≤ operands.length)
      (each : ∀ operand ∈ operands, IsNormal operand) :
      IsNormal (.allOf operands)
  | anyOf
      {operands : List Condition}
      (areParts : Connective.disjunction.AreParts operands)
      (several : 2 ≤ operands.length)
      (each : ∀ operand ∈ operands, IsNormal operand) :
      IsNormal (.anyOf operands)

end Condition

namespace Connective

open Condition

variable
  {connective : Connective}
  {first second third condition : Condition}
  {operands : List Condition}

@[simp] theorem keep_self (bound : Int) : connective.keep bound bound = bound :=
  (connective.keep_cases bound bound).elim id id

/-- The bound that counts among several is one of them, and counts against each. -/
theorem foldl_keep
    (first : Int)
    (others : List Int) :
    others.foldl connective.keep first ∈ first :: others ∧
      ∀ bound ∈ first :: others,
        connective.keep (others.foldl connective.keep first) bound =
          others.foldl connective.keep first := by
  induction others generalizing first with
  | nil => simp
  | cons second others inductionHypothesis =>
      obtain ⟨isOne, counts⟩ := inductionHypothesis (connective.keep first second)
      simp only [List.foldl_cons, List.mem_cons, forall_eq_or_imp] at *
      obtain ⟨countsKept, countsOthers⟩ := counts
      -- What counts against the kept one of two bounds counts against both.
      have countsBoth :
          ∀ bound ∈ [first, second],
            connective.keep (others.foldl connective.keep (connective.keep first second)) bound =
              others.foldl connective.keep (connective.keep first second) := by
        intro bound member
        rw [← countsKept, connective.keep_assoc]
        congr 1
        simp only [List.mem_cons, List.not_mem_nil, or_false] at member
        rcases member with rfl | rfl
        · rw [connective.keep_comm, ← connective.keep_assoc, keep_self]
        · rw [connective.keep_assoc, keep_self]
      refine ⟨?_, countsBoth first (by simp), countsBoth second (by simp), countsOthers⟩
      rcases isOne with isKept | isOther
      · rcases connective.keep_cases first second with isFirst | isSecond
        · exact .inl (isKept.trans isFirst)
        · exact .inr (.inl (isKept.trans isSecond))
      · exact .inr (.inr isOther)

theorem mem_filterMap_highest?
    {bound : Int} :
    bound ∈ operands.filterMap highest? ↔ .precedence bound ∈ operands := by
  simp only [List.mem_filterMap]
  constructor
  · rintro ⟨operand, member, isBound⟩
    cases operand with
    | precedence =>
        cases isBound
        exact member
    | _ => cases isBound
  · exact fun member => ⟨_, member, rfl⟩

/-- Reducing keeps all operands but the precedence conditions that another one counts against. -/
theorem mem_reduce_iff :
    condition ∈ connective.reduce operands ↔
      condition ∈ operands ∧
        ∀ {bound other : Int},
          condition = .precedence bound →
            .precedence other ∈ operands → connective.keep bound other = bound := by
  rw [reduce]
  split
  · rename_i none_
    have noBound : ∀ bound, .precedence bound ∉ operands := by
      intro bound member
      rw [← mem_filterMap_highest?, none_] at member
      cases member
    exact ⟨fun member => ⟨member, fun _ isOther => absurd isOther (noBound _)⟩, And.left⟩
  · rename_i bound bounds areBounds
    obtain ⟨isOne, counts⟩ := connective.foldl_keep bound bounds
    rw [← areBounds, mem_filterMap_highest?] at isOne
    simp only [← areBounds, mem_filterMap_highest?] at counts
    generalize bounds.foldl connective.keep bound = kept at isOne counts
    rw [mem_insert_iff, List.mem_filter]
    constructor
    · rintro (rfl | ⟨member, notBound⟩)
      · refine ⟨isOne, ?_⟩
        rintro _ other ⟨⟩ isOther
        exact counts other isOther
      · refine ⟨member, ?_⟩
        rintro _ _ rfl
        cases notBound
    · rintro ⟨member, survives⟩
      cases condition with
      | precedence highest =>
          refine .inl (congrArg _ ?_)
          rw [← survives rfl isOne, connective.keep_comm, counts highest member]
      | _ => exact .inr ⟨member, rfl⟩

/-- Reducing depends on the operands only, not on how they are listed. -/
theorem mem_reduce_congr
    {others : List Condition}
    (same : ∀ condition, condition ∈ operands ↔ condition ∈ others) :
    condition ∈ connective.reduce operands ↔ condition ∈ connective.reduce others := by
  simp only [mem_reduce_iff, same]

/-- Where there are precedence conditions, one of them is kept. -/
theorem exists_mem_reduce
    (connective : Connective)
    {bound : Int}
    (member : .precedence bound ∈ operands) :
    ∃ kept, .precedence kept ∈ connective.reduce operands ∧
      ∀ other, .precedence other ∈ operands → connective.keep kept other = kept := by
  cases areBounds : operands.filterMap highest? with
  | nil =>
      rw [← mem_filterMap_highest?, areBounds] at member
      cases member
  | cons first others =>
      obtain ⟨isOne, counts⟩ := connective.foldl_keep first others
      rw [← areBounds, mem_filterMap_highest?] at isOne
      simp only [← areBounds, mem_filterMap_highest?] at counts
      refine ⟨_, mem_reduce_iff.mpr ⟨isOne, ?_⟩, counts⟩
      rintro _ other ⟨⟩ isOther
      exact counts other isOther

/-- Operands may as well be reduced before others are put to them. -/
theorem mem_reduce_of_reduced
    (inner outer : List Condition)
    {reducedFirst together : List Condition}
    (isReduced :
      ∀ condition,
        condition ∈ reducedFirst ↔ condition ∈ connective.reduce inner ∨ condition ∈ outer)
    (isTogether :
      ∀ condition, condition ∈ together ↔ condition ∈ inner ∨ condition ∈ outer) :
    condition ∈ connective.reduce reducedFirst ↔ condition ∈ connective.reduce together := by
  simp only [mem_reduce_iff, isReduced, isTogether]
  constructor
  · rintro ⟨member, survives⟩
    refine ⟨member.imp_left And.left, ?_⟩
    rintro bound other rfl (isInner | isOuter)
    · -- The inner bound that was kept stands for the other inner ones.
      obtain ⟨kept, isKept, counts⟩ := exists_mem_reduce connective isInner
      rw [← survives rfl (.inl (mem_reduce_iff.mp isKept)), connective.keep_assoc,
        counts other isInner]
    · exact survives rfl (.inr isOuter)
  · rintro ⟨isInner | isOuter, survives⟩
    · exact ⟨.inl ⟨isInner, fun same isOther => survives same (.inl isOther)⟩,
        fun same isOther => survives same (isOther.imp_left And.left)⟩
    · exact ⟨.inr isOuter, fun same isOther => survives same (isOther.imp_left And.left)⟩

/-- Reducing keeps the order. -/
theorem ascend_reduce
    (ascend : Ascend operands) :
    Ascend (connective.reduce operands) := by
  rw [reduce]
  split
  · exact ascend
  · exact Ascend.insert (ascend.filter _)

@[simp] theorem mem_union_iff :
    condition ∈ connective.union first second ↔
      condition ∈ connective.parts first ∨ condition ∈ connective.parts second := by
  simp [union, or_comm]

theorem ascend_union : Ascend (connective.union first second) :=
  Ascend.insertAll (Ascend.insertAll List.Pairwise.nil)

/-- Two conditions put together are known by the operands that are left. -/
theorem reduce_union_congr
    {first' second' : Condition}
    (same :
      ∀ condition,
        condition ∈ connective.reduce (connective.union first second) ↔
          condition ∈ connective.reduce (connective.union first' second')) :
    connective.join first second = connective.join first' second' :=
  congrArg connective.whole
    ((ascend_reduce ascend_union).eq_of_mem_iff (ascend_reduce ascend_union) same)

/-- The order in which conditions are joined makes no difference. -/
theorem join_comm : connective.join first second = connective.join second first := by
  refine reduce_union_congr fun condition => mem_reduce_congr fun operand => ?_
  simp only [mem_union_iff]
  exact or_comm

/--
A way to tell which conditions hold, in keeping with a connective: what is of its kind has the
decisive value where an operand has it, and of two bounds on the precedence the one that counts has
it where the other one has it.
-/
structure Decides
    (connective : Connective)
    (holds : Condition → Bool) :
    Prop where
  wrap :
    ∀ operands,
      holds (connective.wrap operands) = connective.decisive ↔
        ∃ operand ∈ operands, holds operand = connective.decisive
  keep :
    ∀ {first second : Int},
      holds (.precedence second) = connective.decisive →
        holds (.precedence (connective.keep first second)) = connective.decisive

theorem decides_holdsAt
    (connective : Connective)
    (precedence : Int) :
    connective.Decides (holdsAt precedence) where
  wrap := connective.holdsAt_wrap precedence
  keep := connective.holdsAt_keep

/-- A condition has the decisive value where one of its operands has it. -/
theorem Decides.parts_iff
    {holds : Condition → Bool}
    (decides : connective.Decides holds)
    (condition : Condition) :
    holds condition = connective.decisive ↔
      ∃ operand ∈ connective.parts condition, holds operand = connective.decisive := by
  by_cases isWrap : ∃ operands, condition = connective.wrap operands
  · obtain ⟨operands, rfl⟩ := isWrap
    rw [decides.wrap, connective.parts_wrap]
  · rw [connective.parts_other (by simpa using isWrap)]
    simp

/-- A single operand stands for itself, and several are wrapped. -/
theorem whole_cases
    (connective : Connective)
    (nonempty : operands ≠ []) :
    (∃ single, operands = [single] ∧ connective.whole operands = single) ∨
      2 ≤ operands.length ∧ connective.whole operands = connective.wrap operands := by
  cases operands with
  | nil => exact absurd rfl nonempty
  | cons head tail =>
      cases tail with
      | nil => exact .inl ⟨head, rfl, rfl⟩
      | cons => exact .inr ⟨by simp, rfl⟩

theorem Decides.whole_iff
    {holds : Condition → Bool}
    (decides : connective.Decides holds) :
    holds (connective.whole operands) = connective.decisive ↔
      ∃ operand ∈ operands, holds operand = connective.decisive := by
  rw [whole.eq_def]
  split
  · simp
  · exact decides.wrap _

/-- Joined conditions have the decisive value where one of the two has it. -/
theorem Decides.join_iff
    {holds : Condition → Bool}
    (decides : connective.Decides holds)
    (first second : Condition) :
    holds (connective.join first second) = connective.decisive ↔
      holds first = connective.decisive ∨ holds second = connective.decisive := by
  have reduced :
      (∃ operand ∈ connective.reduce (connective.union first second),
          holds operand = connective.decisive) ↔
        ∃ operand ∈ connective.union first second, holds operand = connective.decisive := by
    constructor
    · rintro ⟨operand, member, isDecisive⟩
      exact ⟨operand, (mem_reduce_iff.mp member).1, isDecisive⟩
    · rintro ⟨operand, member, isDecisive⟩
      cases isBound : operand with
      | precedence bound =>
          subst isBound
          obtain ⟨kept, isKept, counts⟩ := exists_mem_reduce connective member
          exact ⟨_, isKept, counts bound member ▸ decides.keep isDecisive⟩
      | _ =>
          refine ⟨operand, mem_reduce_iff.mpr ⟨member, ?_⟩, isDecisive⟩
          rintro _ _ rfl
          cases isBound
  rw [join, decides.whole_iff, reduced, decides.parts_iff first, decides.parts_iff second]
  simp only [mem_union_iff, or_and_right, exists_or]

/-- Conditions of the connective's kind are of normal form when their operands are kept so. -/
def IsKnown (connective : Connective) : Prop :=
  ∀ operands,
    (connective.wrap operands).IsNormal ↔
      connective.AreParts operands ∧ 2 ≤ operands.length ∧
        ∀ operand ∈ operands, operand.IsNormal

theorem isKnown_conjunction : conjunction.IsKnown := by
  intro operands
  constructor
  · rintro ⟨⟩
    exact ⟨by assumption, by assumption, by assumption⟩
  · rintro ⟨areParts, several, each⟩
    exact .allOf areParts several each

theorem isKnown_disjunction : disjunction.IsKnown := by
  intro operands
  constructor
  · rintro ⟨⟩
    exact ⟨by assumption, by assumption, by assumption⟩
  · rintro ⟨areParts, several, each⟩
    exact .anyOf areParts several each

/-- The condition is made of operands in normal form, and nothing else. -/
structure IsMade
    (connective : Connective)
    (condition : Condition)
    (operands : List Condition) :
    Prop where
  areParts : connective.AreParts operands
  nonempty : operands ≠ []
  each : ∀ operand ∈ operands, operand.IsNormal
  isWhole : connective.whole operands = condition

namespace IsMade

/-- The operands that a condition is made of are its operands. -/
theorem parts_eq
    (made : connective.IsMade condition operands) :
    connective.parts condition = operands := by
  rw [← made.isWhole]
  rcases whole_cases connective made.nonempty with
    ⟨single, rfl, isWhole⟩ | ⟨_, isWhole⟩
  · rw [isWhole]
    exact connective.parts_other fun inner isWrap =>
      made.areParts.noneNested inner (isWrap ▸ List.mem_singleton_self _)
  · rw [isWhole, connective.parts_wrap]

/-- What is made of operands in normal form is of normal form, and does not always hold. -/
theorem isNormal
    (known : connective.IsKnown)
    (made : connective.IsMade condition operands) :
    condition.IsNormal ∧ condition ≠ .always := by
  rw [← made.isWhole]
  rcases whole_cases connective made.nonempty with
    ⟨single, rfl, isWhole⟩ | ⟨several, isWhole⟩
  · rw [isWhole]
    refine ⟨made.each single (List.mem_singleton_self _), ?_⟩
    rintro rfl
    exact made.areParts.noneAlways (List.mem_singleton_self _)
  · rw [isWhole]
    exact ⟨(known operands).mpr ⟨made.areParts, several, made.each⟩,
      connective.wrap_ne_always _⟩

end IsMade

/-- Whatever is of normal form is made of its operands. -/
theorem isMade_of_isNormal
    (known : connective.IsKnown)
    (normal : condition.IsNormal)
    (notAlways : condition ≠ .always) :
    connective.IsMade condition (connective.parts condition) := by
  by_cases isWrap : ∃ operands, condition = connective.wrap operands
  · obtain ⟨operands, rfl⟩ := isWrap
    obtain ⟨areParts, several, each⟩ := (known operands).mp normal
    rw [connective.parts_wrap]
    have nonempty : operands ≠ [] := by
      rintro rfl
      simp at several
    refine ⟨areParts, nonempty, each, ?_⟩
    rcases whole_cases connective nonempty with ⟨_, rfl, _⟩ | ⟨_, isWhole⟩
    · simp at several
    · exact isWhole
  · have notWrap : ∀ operands, condition ≠ connective.wrap operands := by
      simpa using isWrap
    rw [connective.parts_other notWrap]
    refine ⟨⟨List.pairwise_singleton _ _, ?_, ?_, ?_⟩, by simp, by simpa using normal, rfl⟩
    · simpa [eq_comm] using notWrap
    · simpa [eq_comm] using notAlways
    · simp only [List.mem_singleton]
      rintro bound other rfl ⟨⟩
      rfl

section Laws

variable
  (known : connective.IsKnown)
  (firstNormal : first.IsNormal)
  (firstNotAlways : first ≠ .always)
  (secondNormal : second.IsNormal)
  (secondNotAlways : second ≠ .always)
  (thirdNormal : third.IsNormal)
  (thirdNotAlways : third ≠ .always)

include known firstNormal firstNotAlways

/-- Joining a condition with itself changes nothing. -/
theorem join_self : connective.join first first = first := by
  have made := isMade_of_isNormal known firstNormal firstNotAlways
  have same :
      connective.reduce (connective.union first first) = connective.parts first := by
    refine (ascend_reduce ascend_union).eq_of_mem_iff made.areParts.ascend fun operand => ?_
    simp only [mem_reduce_iff, mem_union_iff, or_self, and_iff_left_iff_imp]
    rintro member bound other rfl isOther
    rw [made.areParts.onePrecedence member isOther, keep_self]
  rw [join, same, made.isWhole]

include secondNormal secondNotAlways

/-- Joined conditions are made of the operands of both that are left. -/
theorem isMade_join :
    connective.IsMade (connective.join first second)
      (connective.reduce (connective.union first second)) := by
  have firstMade := isMade_of_isNormal known firstNormal firstNotAlways
  have secondMade := isMade_of_isNormal known secondNormal secondNotAlways
  have isPart :
      ∀ {operand},
        operand ∈ connective.reduce (connective.union first second) →
          operand ∈ connective.parts first ∨ operand ∈ connective.parts second :=
    fun member => mem_union_iff.mp (mem_reduce_iff.mp member).1
  refine ⟨⟨ascend_reduce ascend_union, ?_, ?_, ?_⟩, ?_, ?_, rfl⟩
  · exact fun inner member =>
      (isPart member).elim (firstMade.areParts.noneNested inner)
        (secondMade.areParts.noneNested inner)
  · exact fun member =>
      (isPart member).elim firstMade.areParts.noneAlways secondMade.areParts.noneAlways
  · intro bound other isBound isOther
    rw [← (mem_reduce_iff.mp isBound).2 rfl (mem_reduce_iff.mp isOther).1, connective.keep_comm,
      (mem_reduce_iff.mp isOther).2 rfl (mem_reduce_iff.mp isBound).1]
  · obtain ⟨operand, isOperand⟩ := List.exists_mem_of_ne_nil _ firstMade.nonempty
    have member : operand ∈ connective.union first second := mem_union_iff.mpr (.inl isOperand)
    cases isBound : operand with
    | precedence bound =>
        obtain ⟨kept, isKept, _⟩ := exists_mem_reduce connective (isBound ▸ member)
        exact List.ne_nil_of_mem isKept
    | _ =>
        refine List.ne_nil_of_mem (mem_reduce_iff.mpr ⟨member, ?_⟩)
        rintro _ _ rfl
        cases isBound
  · exact fun operand member =>
      (isPart member).elim (firstMade.each operand) (secondMade.each operand)

include thirdNormal thirdNotAlways

/-- Which conditions are joined first makes no difference. -/
theorem join_assoc :
    connective.join (connective.join first second) third =
      connective.join first (connective.join second third) := by
  have inner := (isMade_join known firstNormal firstNotAlways secondNormal secondNotAlways).parts_eq
  have outer := (isMade_join known secondNormal secondNotAlways thirdNormal thirdNotAlways).parts_eq
  refine reduce_union_congr fun condition => ?_
  let together := insertAll (connective.parts third) (connective.union first second)
  have isTogether :
      ∀ operand,
        operand ∈ together ↔
          (operand ∈ connective.parts first ∨ operand ∈ connective.parts second) ∨
            operand ∈ connective.parts third := by
    intro operand
    simp only [together, mem_insertAll_iff, mem_union_iff]
    exact or_comm
  calc
    condition ∈ connective.reduce (connective.union (connective.join first second) third) ↔
        condition ∈ connective.reduce together := by
      refine mem_reduce_of_reduced (connective.union first second) (connective.parts third) ?_ ?_
      · simp [inner]
      · simpa using isTogether
    _ ↔ condition ∈ connective.reduce (connective.union first (connective.join second third)) := by
      refine (mem_reduce_of_reduced (connective.union second third) (connective.parts first)
        ?_ ?_).symm
      · simp [outer, or_comm]
      · intro operand
        rw [isTogether, mem_union_iff]
        tauto

end Laws

end Connective

namespace Condition

open Connective

variable {first second third condition : Condition}

/-- Two conditions that do not always hold are joined by conjunction. -/
theorem both_eq_join
    (firstNotAlways : first ≠ .always)
    (secondNotAlways : second ≠ .always) :
    first.both second = conjunction.join first second := by
  cases first with
  | always => exact absurd rfl firstNotAlways
  | _ =>
      cases second with
      | always => exact absurd rfl secondNotAlways
      | _ => rfl

/-- Two conditions that do not always hold are joined by disjunction. -/
theorem either_eq_join
    (firstNotAlways : first ≠ .always)
    (secondNotAlways : second ≠ .always) :
    first.either second = disjunction.join first second := by
  cases first with
  | always => exact absurd rfl firstNotAlways
  | _ =>
      cases second with
      | always => exact absurd rfl secondNotAlways
      | _ => rfl

@[simp] theorem always_both : both .always condition = condition := rfl

@[simp] theorem both_always : both condition .always = condition := by
  cases condition <;> rfl

@[simp] theorem always_either : either .always condition = .always := rfl

@[simp] theorem either_always : either condition .always = .always := by
  cases condition <;> rfl

/-- Conditions that come from joining simple ones, in any order and to any depth. -/
inductive IsBuilt : Condition → Prop
  | always : IsBuilt .always
  | predicate
      (rule : Nat)
      (index : Int)
      (contextDependent : Bool) :
      IsBuilt (.predicate rule index contextDependent)
  | precedence
      (highest : Int) :
      IsBuilt (.precedence highest)
  | both
      {first second : Condition}
      (firstBuilt : IsBuilt first)
      (secondBuilt : IsBuilt second) :
      IsBuilt (first.both second)
  | either
      {first second : Condition}
      (firstBuilt : IsBuilt first)
      (secondBuilt : IsBuilt second) :
      IsBuilt (first.either second)

/--
A way of joining conditions: by a connective, except that a condition that always holds is neutral
or absorbing.
-/
structure IsJoining
    (connective : Connective)
    (joins : Condition → Condition → Condition) :
    Prop where
  known : connective.IsKnown
  isJoin :
    ∀ {first second : Condition},
      first ≠ .always → second ≠ .always → joins first second = connective.join first second
  neutralOrAbsorbing :
    (∀ condition, joins .always condition = condition ∧ joins condition .always = condition) ∨
      ∀ condition, joins .always condition = .always ∧ joins condition .always = .always

theorem isJoining_both : IsJoining conjunction both where
  known := isKnown_conjunction
  isJoin := both_eq_join
  neutralOrAbsorbing := .inl fun _ => ⟨always_both, both_always⟩

theorem isJoining_either : IsJoining disjunction either where
  known := isKnown_disjunction
  isJoin := either_eq_join
  neutralOrAbsorbing := .inr fun _ => ⟨always_either, either_always⟩

/-- What makes a way of joining conditions a semilattice, as equations between conditions. -/
structure FormsSemilattice
    (joins : Condition → Condition → Condition)
    (first second third : Condition) :
    Prop where
  comm : joins first second = joins second first
  assoc : joins (joins first second) third = joins first (joins second third)
  self : joins first first = first

namespace IsJoining

variable
  {connective : Connective}
  {joins : Condition → Condition → Condition}
  (joining : IsJoining connective joins)
  (firstNormal : first.IsNormal)
  (secondNormal : second.IsNormal)
  (thirdNormal : third.IsNormal)

include joining

theorem comm (first second : Condition) : joins first second = joins second first := by
  by_cases firstAlways : first = .always
  · rcases joining.neutralOrAbsorbing with always | always <;> simp [firstAlways, always]
  by_cases secondAlways : second = .always
  · rcases joining.neutralOrAbsorbing with always | always <;> simp [secondAlways, always]
  rw [joining.isJoin firstAlways secondAlways, joining.isJoin secondAlways firstAlways, join_comm]

include firstNormal

theorem self : joins first first = first := by
  by_cases firstAlways : first = .always
  · rcases joining.neutralOrAbsorbing with always | always <;> simp [firstAlways, always]
  rw [joining.isJoin firstAlways firstAlways, join_self joining.known firstNormal firstAlways]

include secondNormal

/-- Joining keeps the normal form, and comes to what always holds from nothing else. -/
theorem isNormal_and_ne :
    (joins first second).IsNormal ∧
      (first ≠ .always → second ≠ .always → joins first second ≠ .always) := by
  by_cases firstAlways : first = .always
  · rcases joining.neutralOrAbsorbing with always | always <;>
      simp [firstAlways, always, secondNormal, IsNormal.always]
  by_cases secondAlways : second = .always
  · rcases joining.neutralOrAbsorbing with always | always <;>
      simp [secondAlways, always, firstNormal, IsNormal.always]
  rw [joining.isJoin firstAlways secondAlways]
  have made := isMade_join joining.known firstNormal firstAlways secondNormal secondAlways
  exact ⟨(made.isNormal joining.known).1, fun _ _ => (made.isNormal joining.known).2⟩

theorem isNormal : (joins first second).IsNormal :=
  (joining.isNormal_and_ne firstNormal secondNormal).1

include thirdNormal

theorem assoc : joins (joins first second) third = joins first (joins second third) := by
  by_cases firstAlways : first = .always
  · rcases joining.neutralOrAbsorbing with always | always <;> simp [firstAlways, always]
  by_cases secondAlways : second = .always
  · rcases joining.neutralOrAbsorbing with always | always <;> simp [secondAlways, always]
  by_cases thirdAlways : third = .always
  · rcases joining.neutralOrAbsorbing with always | always <;> simp [thirdAlways, always]
  have innerNotAlways :=
    (joining.isNormal_and_ne firstNormal secondNormal).2 firstAlways secondAlways
  have outerNotAlways :=
    (joining.isNormal_and_ne secondNormal thirdNormal).2 secondAlways thirdAlways
  rw [joining.isJoin innerNotAlways thirdAlways, joining.isJoin firstAlways outerNotAlways,
    joining.isJoin firstAlways secondAlways, joining.isJoin secondAlways thirdAlways]
  exact join_assoc joining.known firstNormal firstAlways secondNormal secondAlways thirdNormal
    thirdAlways

theorem formsSemilattice : FormsSemilattice joins first second third where
  comm := joining.comm first second
  assoc := joining.assoc firstNormal secondNormal thirdNormal
  self := joining.self firstNormal

end IsJoining

/-- Joining leads to nothing but conditions in normal form. -/
theorem IsBuilt.isNormal (built : condition.IsBuilt) : condition.IsNormal := by
  induction built with
  | always => exact .always
  | predicate => exact .predicate
  | precedence => exact .precedence
  | both _ _ firstNormal secondNormal => exact isJoining_both.isNormal firstNormal secondNormal
  | either _ _ firstNormal secondNormal => exact isJoining_either.isNormal firstNormal secondNormal

/-- A conjunction holds where both conditions hold, however that is told. -/
theorem holds_both
    {holds : Condition → Bool}
    (decides : conjunction.Decides holds)
    (always : holds .always = true) :
    holds (first.both second) = (holds first && holds second) := by
  by_cases firstAlways : first = .always
  · simp [firstAlways, always]
  · by_cases secondAlways : second = .always
    · simp [secondAlways, always]
    · have joined := decides.join_iff first second
      rw [← both_eq_join firstAlways secondAlways] at joined
      rw [Bool.eq_iff_iff, ← not_iff_not]
      simpa [conjunction, imp_iff_not_or] using joined

/-- A disjunction holds where one of the conditions holds, however that is told. -/
theorem holds_either
    {holds : Condition → Bool}
    (decides : disjunction.Decides holds)
    (always : holds .always = true) :
    holds (first.either second) = (holds first || holds second) := by
  by_cases firstAlways : first = .always
  · simp [firstAlways, always]
  · by_cases secondAlways : second = .always
    · simp [secondAlways, always]
    · have joined := decides.join_iff first second
      rw [← either_eq_join firstAlways secondAlways] at joined
      rw [Bool.eq_iff_iff, Bool.or_eq_true]
      exact joined

/-- What conditions are joined to by conjunction holds where all of them hold. -/
theorem holds_foldl_both
    {holds : Condition → Bool}
    (decides : conjunction.Decides holds)
    (always : holds .always = true)
    (first : Condition)
    (others : List Condition) :
    holds (others.foldl both first) = (first :: others).all holds := by
  induction others generalizing first with
  | nil => simp
  | cons second others inductionHypothesis =>
      rw [List.foldl_cons, inductionHypothesis, List.all_cons, List.all_cons, List.all_cons,
        holds_both decides always, Bool.and_assoc]

/-- What conditions are joined to by disjunction holds where one of them holds. -/
theorem holds_foldl_either
    {holds : Condition → Bool}
    (decides : disjunction.Decides holds)
    (always : holds .always = true)
    (first : Condition)
    (others : List Condition) :
    holds (others.foldl either first) = (first :: others).any holds := by
  induction others generalizing first with
  | nil => simp
  | cons second others inductionHypothesis =>
      rw [List.foldl_cons, inductionHypothesis, List.any_cons, List.any_cons, List.any_cons,
        holds_either decides always, Bool.or_assoc]

@[simp] theorem holdsAt_both
    {precedence : Int} :
    (first.both second).holdsAt precedence =
      (first.holdsAt precedence && second.holdsAt precedence) :=
  holds_both (decides_holdsAt conjunction precedence) rfl

@[simp] theorem holdsAt_either
    {precedence : Int} :
    (first.either second).holdsAt precedence =
      (first.holdsAt precedence || second.holdsAt precedence) :=
  holds_either (decides_holdsAt disjunction precedence) rfl

/--
Conjunction and disjunction make semilattices of the conditions that are built by them, and
conditions hold as they are built. A condition that always holds is neutral for conjunction and
absorbing for disjunction. All conditions that are built are of normal form.
-/
theorem built_form_semilattices
    {first second third : Condition}
    (firstBuilt : first.IsBuilt)
    (secondBuilt : second.IsBuilt)
    (thirdBuilt : third.IsBuilt)
    (precedence : Int) :
    (first.both second).holdsAt precedence =
        (first.holdsAt precedence && second.holdsAt precedence) ∧
      (first.either second).holdsAt precedence =
          (first.holdsAt precedence || second.holdsAt precedence) ∧
        FormsSemilattice both first second third ∧
          FormsSemilattice either first second third ∧
            (both .always first = first ∧ both first .always = first) ∧
              (either .always first = .always ∧ either first .always = .always) ∧
                first.IsNormal := by
  have firstNormal := firstBuilt.isNormal
  have secondNormal := secondBuilt.isNormal
  have thirdNormal := thirdBuilt.isNormal
  have conjunctions := isJoining_both.formsSemilattice firstNormal secondNormal thirdNormal
  have disjunctions := isJoining_either.formsSemilattice firstNormal secondNormal thirdNormal
  exact ⟨holdsAt_both, holdsAt_either, conjunctions, disjunctions, ⟨always_both, both_always⟩,
    ⟨always_either, either_always⟩, firstNormal⟩

/-- A condition in which both connectives are nested, with a precedence condition at each level. -/
def nested : Condition :=
  ((predicate 0 1 false).both (.precedence 4)).either ((predicate 0 2 true).both (.precedence 2))

theorem isBuilt_nested : nested.IsBuilt :=
  .either (.both (.predicate 0 1 false) (.precedence 4))
    (.both (.predicate 0 2 true) (.precedence 2))

theorem nested_form_semilattices :
    FormsSemilattice both nested (.either (.precedence 1) (.precedence 3)) (.predicate 0 2 true) ∧
      FormsSemilattice either nested (.either (.precedence 1) (.precedence 3))
        (.predicate 0 2 true) ∧
        nested.IsNormal :=
  have built :=
    built_form_semilattices isBuilt_nested (.either (.precedence 1) (.precedence 3))
      (.predicate 0 2 true) 3
  ⟨built.2.2.1, built.2.2.2.1, built.2.2.2.2.2.2⟩

end Condition

end GrammarService
