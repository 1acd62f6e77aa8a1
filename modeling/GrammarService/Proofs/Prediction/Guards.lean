import GrammarService.Proofs.Prediction.Conditions
import GrammarService.Proofs.Prediction.Indexing

namespace GrammarService

/-!
# What guarded verdicts choose

The guard of an alternative holds where the condition of one of its configurations holds, and guards
are left out of a verdict only where all of them hold. So with or without guards a verdict comes to
the lowest of its alternatives that has a configuration whose condition holds.

Guards need not be gathered alternative by alternative. A table with a place for each alternative,
filled in one pass over the configurations, has the same guards, as long as it has enough places.
-/

namespace ConfigurationSet

variable {set : ConfigurationSet} {alternative : Nat}

/-- Whether the alternative has a configuration whose condition holds. -/
def holdsFor
    (set : ConfigurationSet)
    (precedence : Int)
    (alternative : Nat) :
    Bool :=
  set.configurations.toList.any fun configuration =>
    configuration.alternative == alternative && configuration.condition.holdsAt precedence

theorem holdsFor_iff
    {precedence : Int} :
    set.holdsFor precedence alternative = true ↔
      ∃ configuration ∈ set.configurations,
        configuration.alternative = alternative ∧
          configuration.condition.holdsAt precedence = true := by
  simp only [holdsFor, List.any_eq_true, Array.mem_toList_iff, Bool.and_eq_true, beq_iff_eq]

/-- The conditions of the configurations of an alternative. -/
def conditionsOf
    (set : ConfigurationSet)
    (alternative : Nat) :
    List Condition :=
  (set.configurations.toList.filter (·.alternative = alternative)).map Configuration.condition

theorem any_conditionsOf
    {precedence : Int} :
    (set.conditionsOf alternative).any (·.holdsAt precedence) =
      set.holdsFor precedence alternative := by
  rw [conditionsOf, List.any_map, List.any_filter]
  rfl

theorem conditionsOf_eq_nil_iff :
    set.conditionsOf alternative = [] ↔ ¬ set.HasAlternative alternative := by
  simp [conditionsOf, HasAlternative, List.filter_eq_nil_iff]

/-- An alternative above all others is inserted behind them. -/
theorem insertAlternative_of_above
    {alternatives : List Nat}
    (above : ∀ lower ∈ alternatives, lower < alternative) :
    insertAlternative alternative alternatives = alternatives ++ [alternative] := by
  induction alternatives with
  | nil => rfl
  | cons head tail inductionHypothesis =>
      have aboveHead := above head List.mem_cons_self
      rw [insertAlternative, if_neg (by omega), if_neg (by omega),
        inductionHypothesis fun lower member => above lower (List.mem_cons_of_mem head member)]
      rfl

/-- Alternatives that ascend are inserted one behind the other. -/
theorem foldl_insertAlternative
    {alternatives : List Nat}
    (ascends : alternatives.Pairwise (· < ·)) :
    alternatives.foldl
        (fun alternatives alternative => insertAlternative alternative alternatives) [] =
      alternatives := by
  induction alternatives using List.reverseRecOn with
  | nil => rfl
  | append_singleton earlier last inductionHypothesis =>
      obtain ⟨earlierAscends, -, below⟩ := List.pairwise_append.mp ascends
      rw [List.foldl_append, inductionHypothesis earlierAscends, List.foldl_cons, List.foldl_nil]
      exact insertAlternative_of_above fun alternative member =>
        below alternative member last List.mem_cons_self

/-- A set that never saw a condition has none. -/
theorem IsMade.condition_eq_always
    (isMade : set.IsMade)
    (unconditional : set.hasConditions = false) :
    ∀ configuration ∈ set.configurations, configuration.condition = .always := by
  induction isMade with
  | empty => simp [ConfigurationSet.empty]
  | @add set _ configuration store inductionHypothesis =>
      have both : set.hasConditions = false ∧ configuration.condition = .always := by
        cases known : set.index[indexKey configuration]? <;>
          simpa [add_of_new, add_of_known, known, hasConditionsWith] using unconditional
      exact forall_add (fun _ _ _ same => same) (inductionHypothesis both.1) both.2
  | retain _ keeps inductionHypothesis =>
      intro configuration member
      exact inductionHypothesis unconditional configuration (mem_retain.mp member).1

end ConfigurationSet

namespace Verdict

open ConfigurationSet

variable
  {set : ConfigurationSet}
  {alternative : Nat}
  {alternatives : List Nat}
  {needsFullContext : Bool}
  {precedence : Int}

/-- A guard that takes in one more condition, or begins with it. -/
def widened
    (guard? : Option Condition)
    (condition : Condition) :
    Option Condition :=
  some (guard?.elim condition (·.either condition))

theorem foldl_widened
    (guard? : Option Condition)
    (conditions : List Condition) :
    conditions.foldl widened guard? = Condition.eitherOf? (guard?.toList ++ conditions) := by
  induction conditions generalizing guard? with
  | nil => cases guard? <;> rfl
  | cons condition conditions inductionHypothesis =>
      rw [List.foldl_cons, inductionHypothesis]
      cases guard? <;> rfl

/-- One more configuration, taken into a guard if it is of the alternative. -/
theorem foldl_guarding
    (configurations : List Configuration)
    (guard? : Option Condition) :
    configurations.foldl
        (fun guard? configuration =>
          if configuration.alternative = alternative then
            widened guard? configuration.condition
          else
            guard?)
        guard? =
      ((configurations.filter (·.alternative = alternative)).map
        Configuration.condition).foldl widened guard? := by
  rw [List.foldl_map, List.foldl_filter]
  simp only [decide_eq_true_eq]

/-- The guard of an alternative is the disjunction of its conditions. -/
theorem guardOf?_eq :
    guardOf? set alternative = Condition.eitherOf? (set.conditionsOf alternative) := by
  have isWidened :
      guardOf? set alternative =
        set.configurations.toList.foldl
          (fun guard? configuration =>
            if configuration.alternative = alternative then
              widened guard? configuration.condition
            else
              guard?)
          none := by
    rw [guardOf?, ← Array.foldl_toList]
    congr
    funext guard? configuration
    cases guard? <;> rfl
  rw [isWidened, foldl_guarding, foldl_widened]
  rfl

/-- The guard of an alternative holds where one of its configurations has a condition that holds. -/
theorem holdsAt_guard
    (present : set.HasAlternative alternative)
    (precedence : Int) :
    ((guardOf? set alternative).getD .always).holdsAt precedence =
      set.holdsFor precedence alternative := by
  have notNil := mt conditionsOf_eq_nil_iff.mp (not_not.mpr present)
  obtain ⟨first, others, areConditions⟩ := List.exists_cons_of_ne_nil notNil
  have decides := Connective.decides_holdsAt .disjunction precedence
  rw [guardOf?_eq, areConditions, Condition.eitherOf?, Option.getD_some,
    Condition.holds_foldl_either decides rfl, ← areConditions, any_conditionsOf]

/-- Without conditions in the set no alternative has a guard that could fail. -/
theorem guard_eq_always
    (isMade : set.IsMade)
    (unconditional : set.hasConditions = false) :
    (guardOf? set alternative).getD .always = .always := by
  have areAlways : ∀ condition ∈ set.conditionsOf alternative, condition = .always := by
    intro condition member
    obtain ⟨configuration, isPresent, rfl⟩ := List.mem_map.mp member
    exact isMade.condition_eq_always unconditional configuration
      (Array.mem_toList_iff.mp (List.mem_filter.mp isPresent).1)
  rw [guardOf?_eq]
  cases areConditions : set.conditionsOf alternative with
  | nil => rfl
  | cons first others =>
      rw [areAlways first (by simp [areConditions])]
      exact List.foldlRecOn others Condition.either (motive := (· = .always)) rfl
        fun _ isAlways _ _ => isAlways ▸ Condition.always_either

/-- The alternatives of guards that hold are kept as they are, if they ascend. -/
theorem holdingAlternatives_eq
    (ascends : alternatives.Pairwise (· < ·))
    (guard : Nat → Condition) :
    Prediction.holdingAlternatives precedence
        (alternatives.map fun alternative => (guard alternative, alternative)) =
      alternatives.filter fun alternative => (guard alternative).holdsAt precedence := by
  rw [Prediction.holdingAlternatives, List.filter_map, List.foldl_map]
  exact foldl_insertAlternative (ascends.filter _)

/-- The alternative that a verdict comes to at a precedence, if the guard of one holds. -/
def chosenAt?
    (precedence : Int)
    (verdict : Verdict) :
    Option Nat :=
  match verdict.guards with
  | none => some verdict.alternative
  | some guards => (Prediction.holdingAlternatives precedence guards).head?

/-- A verdict predicts the alternative that it comes to, unless it needs the real invocations. -/
theorem outcomeOf_cases
    (verdict : Verdict)
    (start : Nat) :
    Prediction.outcomeOf precedence start verdict =
        (verdict.chosenAt? precedence).elim (.noViableAlternative start) .predicted ∨
      verdict.needsFullContext = true ∧
        Prediction.outcomeOf precedence start verdict = .needsFullContext := by
  obtain ⟨alternative, guards?, needsFullContext⟩ := verdict
  cases guards? with
  | none => cases needsFullContext <;> simp [Prediction.outcomeOf, chosenAt?]
  | some guards =>
      cases isHolding : Prediction.holdingAlternatives precedence guards with
      | nil => cases needsFullContext <;> simp [Prediction.outcomeOf, chosenAt?, isHolding]
      | cons lowest others =>
          cases others <;> cases needsFullContext <;>
            simp [Prediction.outcomeOf, chosenAt?, isHolding]

/--
A verdict comes to the first of its alternatives that has a configuration whose condition holds,
with guards or without.
-/
theorem chosenAt?_ofAlternatives
    (isMade : set.IsMade)
    (nonempty : alternatives ≠ [])
    (ascends : alternatives.Pairwise (· < ·))
    (present : ∀ alternative ∈ alternatives, set.HasAlternative alternative)
    (needsFullContext : Bool)
    (precedence : Int) :
    (ofAlternatives set alternatives needsFullContext).chosenAt? precedence =
      (alternatives.filter (set.holdsFor precedence)).head? := by
  have guardHolds :
      ∀ alternative ∈ alternatives,
        ((guardOf? set alternative).getD .always).holdsAt precedence =
          set.holdsFor precedence alternative :=
    fun alternative member => holdsAt_guard (present alternative member) precedence
  rw [← List.filter_congr guardHolds, chosenAt?, ofAlternatives]
  by_cases guarded :
      (set.hasConditions && (alternatives.map fun alternative =>
        ((guardOf? set alternative).getD .always, alternative)).any (·.1 ≠ .always)) = true
  · simp only [if_pos guarded, holdingAlternatives_eq ascends]
  · -- Guards are left out only where each of them is the condition that always holds.
    have allAlways :
        ∀ alternative ∈ alternatives, (guardOf? set alternative).getD .always = .always := by
      intro alternative member
      rcases Bool.eq_false_or_eq_true set.hasConditions with conditional | unconditional
      · simp only [conditional, Bool.true_and, List.any_map, List.any_eq_true, not_exists,
          not_and] at guarded
        simpa using guarded alternative member
      · exact guard_eq_always isMade unconditional
    have allHold :
        alternatives.filter (fun alternative =>
          ((guardOf? set alternative).getD .always).holdsAt precedence) = alternatives :=
      List.filter_eq_self.mpr fun alternative member => by rw [allAlways alternative member]; rfl
    simp only [if_neg guarded, allHold]
    obtain ⟨lowest, others, rfl⟩ := List.exists_cons_of_ne_nil nonempty
    rfl

/-- The guards of some alternatives, each gathered at its place in one pass over configurations. -/
def guardTable
    (set : ConfigurationSet)
    (alternatives : List Nat)
    (last : Nat) :
    Array (Option Condition) :=
  (set.configurations.toList.filter (·.alternative ∈ alternatives)).foldl
    (fun table configuration =>
      table.modify configuration.alternative (widened · configuration.condition))
    (Array.replicate (last + 1) none)

/-- The verdict for some alternatives, ascending, with guards from a table of `last + 1` places. -/
def ofTable
    (set : ConfigurationSet)
    (alternatives : List Nat)
    (last : Nat)
    (needsFullContext : Bool) :
    Verdict :=
  let table := guardTable set alternatives last
  let guarded := set.hasConditions && table.any (·.any (· ≠ .always))
  { alternative := alternatives.headD 0
    guards :=
      if guarded then
        some (alternatives.map fun alternative =>
          ((table.getD alternative none).getD .always, alternative))
      else
        none
    needsFullContext := needsFullContext }

/-- What is gathered at the place of an alternative are the conditions of its configurations. -/
theorem getElem?_gathered
    (configurations : List Configuration)
    (table : Array (Option Condition)) :
    (configurations.foldl
        (fun table configuration =>
          table.modify configuration.alternative (widened · configuration.condition))
        table)[alternative]? =
      table[alternative]?.map fun guard? =>
        ((configurations.filter (·.alternative = alternative)).map
          Configuration.condition).foldl widened guard? := by
  induction configurations generalizing table with
  | nil => simp
  | cons configuration configurations inductionHypothesis =>
      rw [List.foldl_cons, inductionHypothesis, Array.getElem?_modify]
      by_cases isOf : configuration.alternative = alternative
      · simp [isOf, Function.comp_def]
      · simp [isOf]

/-- A table has the guards of the alternatives that it is made for, as far as it has places. -/
theorem getElem?_guardTable
    {last : Nat} :
    (guardTable set alternatives last)[alternative]? =
      if alternative ≤ last then
        some (if alternative ∈ alternatives then guardOf? set alternative else none)
      else
        none := by
  rw [guardTable, getElem?_gathered, Array.getElem?_replicate, List.filter_filter]
  simp only [Nat.lt_succ_iff]
  split
  · rw [Option.map_some, Option.some.injEq]
    split
    · rename_i isGuarded
      rw [guardOf?_eq, conditionsOf, foldl_widened, Option.toList_none, List.nil_append]
      congr 2
      refine List.filter_congr fun configuration _ => ?_
      by_cases isOf : configuration.alternative = alternative <;> simp [isOf, isGuarded]
    · rename_i isOther
      have noneIsOf :
          set.configurations.toList.filter
            (fun configuration => configuration.alternative = alternative &&
              configuration.alternative ∈ alternatives) = [] := by
        refine List.filter_eq_nil_iff.mpr fun configuration _ isGuarded => isOther ?_
        simp only [Bool.and_eq_true, decide_eq_true_eq] at isGuarded
        exact isGuarded.1 ▸ isGuarded.2
      rw [noneIsOf]
      rfl
  · rfl

theorem any_ne_always_iff
    {guard? : Option Condition} :
    guard?.any (· ≠ .always) = true ↔ guard?.getD .always ≠ .always := by
  cases guard? <;> simp

/-- A verdict with guards from a table that has enough places is the verdict without a table. -/
theorem ofTable_eq
    {last : Nat}
    (fits : ∀ alternative ∈ alternatives, alternative ≤ last) :
    ofTable set alternatives last needsFullContext =
      ofAlternatives set alternatives needsFullContext := by
  have sameGuard :
      ∀ alternative ∈ alternatives,
        (guardTable set alternatives last).getD alternative none = guardOf? set alternative := by
    intro alternative member
    rw [Array.getD_eq_getD_getElem?, getElem?_guardTable, if_pos (fits alternative member),
      if_pos member, Option.getD_some]
  have sameGuards :
      (alternatives.map fun alternative =>
        (((guardTable set alternatives last).getD alternative none).getD .always, alternative)) =
        alternatives.map fun alternative =>
          ((guardOf? set alternative).getD .always, alternative) :=
    List.map_congr_left fun alternative member => by rw [sameGuard alternative member]
  have sameGuarded :
      (guardTable set alternatives last).any (·.any (· ≠ .always)) =
        (alternatives.map fun alternative =>
          ((guardOf? set alternative).getD .always, alternative)).any (·.1 ≠ .always) := by
    rw [Bool.eq_iff_iff, List.any_map, List.any_eq_true, Array.any_eq_true']
    constructor
    · rintro ⟨guard?, isThere, isGuard⟩
      obtain ⟨alternative, isAt⟩ := Array.mem_iff_getElem?.mp isThere
      simp only [getElem?_guardTable, Option.ite_none_right_eq_some, Option.some.injEq] at isAt
      obtain ⟨-, rfl⟩ := isAt
      by_cases member : alternative ∈ alternatives
      · rw [if_pos member, any_ne_always_iff] at isGuard
        exact ⟨alternative, member, by simpa using isGuard⟩
      · simp [member] at isGuard
    · rintro ⟨alternative, member, isGuard⟩
      have isAt :
          (guardTable set alternatives last)[alternative]? = some (guardOf? set alternative) := by
        rw [getElem?_guardTable, if_pos (fits alternative member), if_pos member]
      refine ⟨_, Array.mem_of_getElem? isAt, any_ne_always_iff.mpr ?_⟩
      simpa using isGuard
  simp only [ofTable, ofAlternatives, sameGuards, sameGuarded]

/-- The alternatives, of those given, that have a configuration whose condition holds. -/
def holdingOf
    (set : ConfigurationSet)
    (alternatives : List Nat)
    (precedence : Int) :
    Set Nat :=
  {alternative | alternative ∈ alternatives ∧
    ∃ configuration ∈ set.configurations,
      configuration.alternative = alternative ∧
        configuration.condition.holdsAt precedence = true}

theorem mem_holding_iff :
    alternative ∈ alternatives.filter (set.holdsFor precedence) ↔
      alternative ∈ holdingOf set alternatives precedence := by
  rw [List.mem_filter, holdsFor_iff]
  rfl

/-- The first of ascending numbers is the least one. -/
theorem head?_eq_some_iff_isLeast
    {numbers : List Nat}
    (ascends : numbers.Pairwise (· < ·))
    {lowest : Nat} :
    numbers.head? = some lowest ↔ IsLeast {number | number ∈ numbers} lowest := by
  cases numbers with
  | nil => simp [IsLeast]
  | cons head tail =>
      have below := (List.pairwise_cons.mp ascends).1
      have headIsLeast : IsLeast {number | number ∈ head :: tail} head := by
        refine ⟨List.mem_cons_self, fun number member => ?_⟩
        rcases List.mem_cons.mp member with rfl | isLater
        · exact le_rfl
        · exact (below number isLater).le
      rw [List.head?_cons, Option.some.injEq]
      exact ⟨fun same => same ▸ headIsLeast, headIsLeast.unique⟩

/--
A verdict on alternatives of a set, with guards from a table that has places for all of them, comes
to the lowest one that has a configuration whose condition holds, and to none just where no
condition of a configuration of the alternatives holds. It predicts what it comes to, unless it
needs the real invocations.
-/
theorem comes_to_lowest_holding
    (isMade : set.IsMade)
    (nonempty : alternatives ≠ [])
    (ascends : alternatives.Pairwise (· < ·))
    (present : ∀ alternative ∈ alternatives, set.HasAlternative alternative)
    {last : Nat}
    (fits : ∀ alternative ∈ alternatives, alternative ≤ last)
    (needsFullContext : Bool)
    (precedence : Int)
    (start : Nat) :
    let verdict := ofTable set alternatives last needsFullContext
    verdict = ofAlternatives set alternatives needsFullContext ∧
      (∀ lowest,
        verdict.chosenAt? precedence = some lowest ↔
          IsLeast (holdingOf set alternatives precedence) lowest) ∧
        (verdict.chosenAt? precedence = none ↔
          ∀ configuration ∈ set.configurations, configuration.alternative ∈ alternatives →
            configuration.condition.holdsAt precedence = false) ∧
          (Prediction.outcomeOf precedence start verdict =
              (verdict.chosenAt? precedence).elim (.noViableAlternative start) .predicted ∨
            needsFullContext = true ∧
              Prediction.outcomeOf precedence start verdict = .needsFullContext) := by
  intro verdict
  have sameVerdict : verdict = ofAlternatives set alternatives needsFullContext := ofTable_eq fits
  have chosen :=
    sameVerdict ▸
      chosenAt?_ofAlternatives isMade nonempty ascends present needsFullContext precedence
  have areHolding :
      {alternative | alternative ∈ alternatives.filter (set.holdsFor precedence)} =
        holdingOf set alternatives precedence :=
    Set.ext fun _ => mem_holding_iff
  refine ⟨sameVerdict, fun lowest => ?_, ?_, outcomeOf_cases verdict start⟩
  · rw [chosen, head?_eq_some_iff_isLeast (ascends.filter _), areHolding]
  · rw [chosen, List.head?_eq_none_iff, List.eq_nil_iff_forall_not_mem]
    simp only [mem_holding_iff]
    constructor
    · intro noneHolds configuration member isAmong
      refine Bool.eq_false_iff.mpr fun holds => noneHolds _ ⟨isAmong, _, member, rfl, holds⟩
    · rintro fails alternative ⟨isAmong, configuration, member, rfl, holds⟩
      exact absurd holds (Bool.eq_false_iff.mp (fails configuration member isAmong))

/-- Alternative 1 is guarded in both of its states, alternative 2 in one of two. -/
def mixed : ConfigurationSet :=
  let both := (Condition.predicate 0 0 false).both (.precedence 2)
  [{ Configuration.start 4 1 0 with condition := .precedence 1 },
    { Configuration.start 4 2 0 with condition := .precedence 1 },
    Configuration.start 5 2 0,
    { Configuration.start 5 1 0 with condition := both }].foldl
      (fun set configuration => ((set.add configuration).run StackStore.initial).1) (empty false)

theorem isMade_mixed : mixed.IsMade :=
  .add (.add (.add (.add (.empty false) _ _) _ _) _ _) _ _

theorem hasAlternative_mixed :
    ∀ alternative ∈ [1, 2], mixed.HasAlternative alternative := by
  have alternatives :
      mixed.configurations.toList.map Configuration.alternative = [1, 2, 2, 1] := by cbv
  intro alternative member
  have isThere : alternative ∈ mixed.configurations.toList.map Configuration.alternative := by
    rw [alternatives]
    simp only [List.mem_cons] at member ⊢
    tauto
  obtain ⟨configuration, isPresent, isAlternative⟩ := List.mem_map.mp isThere
  exact ⟨configuration, Array.mem_toList_iff.mp isPresent, isAlternative⟩

theorem mixed_comes_to_lowest :
    IsLeast (holdingOf mixed [1, 2] 2) 1 ∧ IsLeast (holdingOf mixed [1, 2] 3) 2 := by
  have comesTo :=
    comes_to_lowest_holding isMade_mixed (by decide) (by decide) hasAlternative_mixed
      (show ∀ alternative ∈ [1, 2], alternative ≤ 3 by decide) false
  exact ⟨((comesTo 2 0).2.1 1).mp (by cbv), ((comesTo 3 0).2.1 2).mp (by cbv)⟩

end Verdict

end GrammarService
