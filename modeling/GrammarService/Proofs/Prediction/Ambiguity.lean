import GrammarService.Proofs.Prediction.Alternatives

namespace GrammarService

/-!
# Alternatives that cannot be told apart

With the real rule invocations a prediction commits itself before only one alternative is left,
namely once the groups of alternatives that share a state and a stack all have the same lowest
member. That is so exactly where the lowest alternative of all has a configuration in every place
that another one has come to, and so can go on in every way that is still open.
-/

namespace ConfigurationSet

/-- No configuration of the set has a lower alternative, and one has this. -/
structure IsLowest
    (set : ConfigurationSet)
    (alternative : Nat) :
    Prop where
  isThere : set.HasAlternative alternative
  le :
    ∀ configuration ∈ set.configurations, alternative ≤ configuration.alternative

/-- Every configuration of another alternative has a twin of this one in the same place. -/
def HasTwins
    (set : ConfigurationSet)
    (alternative : Nat) :
    Prop :=
  ∀ configuration ∈ set.configurations,
    configuration.alternative ≠ alternative →
      ∃ twin ∈ set.configurations,
        twin.alternative = alternative ∧ twin.state = configuration.state ∧
          twin.stack = configuration.stack

/-- Inserting an alternative keeps the order of ascending ones. -/
theorem pairwise_insertAlternative
    {alternatives : List Nat}
    (ascends : alternatives.Pairwise (· < ·))
    (alternative : Nat) :
    (insertAlternative alternative alternatives).Pairwise (· < ·) := by
  induction alternatives with
  | nil => simp [insertAlternative]
  | cons head tail inductionHypothesis =>
      obtain ⟨below, tailAscends⟩ := List.pairwise_cons.mp ascends
      unfold insertAlternative
      split
      · rename_i isBelow
        refine List.pairwise_cons.mpr ⟨?_, ascends⟩
        intro other member
        rcases List.mem_cons.mp member with rfl | isTail
        · exact isBelow
        · exact lt_trans isBelow (below other isTail)
      · split
        · exact ascends
        · rename_i notBelow notSame
          refine List.pairwise_cons.mpr ⟨?_, inductionHypothesis tailAscends⟩
          intro other member
          rcases Prediction.mem_insertAlternative_iff.mp member with rfl | isTail
          · omega
          · exact below other isTail

/-- The first of ascending alternatives is the lowest. -/
theorem head?_eq_some_iff_of_pairwise
    {alternatives : List Nat}
    (ascends : alternatives.Pairwise (· < ·))
    {lowest : Nat} :
    alternatives.head? = some lowest ↔
      lowest ∈ alternatives ∧ ∀ alternative ∈ alternatives, lowest ≤ alternative := by
  cases alternatives with
  | nil => simp
  | cons head tail =>
      obtain ⟨below, -⟩ := List.pairwise_cons.mp ascends
      rw [List.head?_cons, Option.some.injEq]
      constructor
      · rintro rfl
        refine ⟨List.mem_cons_self, fun alternative member => ?_⟩
        rcases List.mem_cons.mp member with rfl | isTail
        · exact le_rfl
        · exact le_of_lt (below alternative isTail)
      · rintro ⟨member, least⟩
        rcases List.mem_cons.mp member with rfl | isTail
        · rfl
        · have notLower := least head List.mem_cons_self
          have isLower := below lowest isTail
          omega

/-- The state and the stack that alternatives are grouped by. -/
def placeOf (configuration : Configuration) : Nat × StackId :=
  (configuration.state, configuration.stack)

/-- Groups hold the alternatives of some configurations, ascending, by their places. -/
structure Groups
    (configurations : List Configuration)
    (groups : List ((Nat × StackId) × List Nat)) :
    Prop where
  distinct : (groups.map Prod.fst).Nodup
  ascends : ∀ group ∈ groups, group.2.Pairwise (· < ·)
  mem_iff :
    ∀ group ∈ groups,
      ∀ alternative : Nat,
        alternative ∈ group.2 ↔
          ∃ configuration ∈ configurations,
            placeOf configuration = group.1 ∧ configuration.alternative = alternative
  isPlace_iff :
    ∀ place : Nat × StackId,
      place ∈ groups.map Prod.fst ↔
        ∃ configuration ∈ configurations, placeOf configuration = place

/-- Inserting a configuration adds its place to those of the groups. -/
theorem mem_places_insertIntoGroup_iff
    {configuration : Configuration}
    {groups : List ((Nat × StackId) × List Nat)}
    {place : Nat × StackId} :
    place ∈ (insertIntoGroup configuration groups).map Prod.fst ↔
      place = placeOf configuration ∨ place ∈ groups.map Prod.fst := by
  induction groups with
  | nil => simp [insertIntoGroup, placeOf]
  | cons group groups inductionHypothesis =>
      unfold insertIntoGroup
      split
      · rename_i same
        simp only [List.map_cons, List.mem_cons, same, placeOf]
        tauto
      · simp only [List.map_cons, List.mem_cons, inductionHypothesis]
        tauto

/-- Places stay distinct when a configuration is inserted. -/
theorem nodup_places_insertIntoGroup
    {groups : List ((Nat × StackId) × List Nat)}
    (distinct : (groups.map Prod.fst).Nodup)
    (configuration : Configuration) :
    ((insertIntoGroup configuration groups).map Prod.fst).Nodup := by
  induction groups with
  | nil => simp [insertIntoGroup]
  | cons group groups inductionHypothesis =>
      obtain ⟨isNew, restDistinct⟩ := List.nodup_cons.mp distinct
      unfold insertIntoGroup
      split
      · exact distinct
      · rename_i differs
        refine List.nodup_cons.mpr ⟨?_, inductionHypothesis restDistinct⟩
        rw [mem_places_insertIntoGroup_iff]
        rintro (same | isOld)
        · exact differs same
        · exact isNew isOld

/-- A group behind an insertion is the one of the configuration's place, with its alternative, or a
group of another place. -/
theorem mem_insertIntoGroup
    {configuration : Configuration}
    {groups : List ((Nat × StackId) × List Nat)}
    (distinct : (groups.map Prod.fst).Nodup)
    {group : (Nat × StackId) × List Nat}
    (member : group ∈ insertIntoGroup configuration groups) :
    (group ∈ groups ∧ group.1 ≠ placeOf configuration) ∨
      group.1 = placeOf configuration ∧
        ((∃ before, (group.1, before) ∈ groups ∧
            group.2 = insertAlternative configuration.alternative before) ∨
          group.1 ∉ groups.map Prod.fst ∧ group.2 = [configuration.alternative]) := by
  induction groups with
  | nil =>
      rw [insertIntoGroup, List.mem_singleton] at member
      subst member
      exact .inr ⟨rfl, .inr ⟨by simp, rfl⟩⟩
  | cons head groups inductionHypothesis =>
      obtain ⟨place, alternatives⟩ := head
      obtain ⟨isNew, restDistinct⟩ := List.nodup_cons.mp distinct
      unfold insertIntoGroup at member
      split at member
      · rename_i same
        rcases List.mem_cons.mp member with rfl | isRest
        · exact .inr ⟨same, .inl ⟨alternatives, List.mem_cons_self, rfl⟩⟩
        · refine .inl ⟨List.mem_cons_of_mem _ isRest, ?_⟩
          rintro isSame
          exact isNew (List.mem_map.mpr ⟨group, isRest, isSame.trans same.symm⟩)
      · rename_i differs
        rcases List.mem_cons.mp member with rfl | isRest
        · exact .inl ⟨List.mem_cons_self, differs⟩
        · rcases inductionHypothesis restDistinct isRest with
            ⟨isOld, other⟩ | ⟨same, ⟨before, wasThere, isBehind⟩ | ⟨wasNew, isAlone⟩⟩
          · exact .inl ⟨List.mem_cons_of_mem _ isOld, other⟩
          · exact .inr ⟨same, .inl ⟨before, List.mem_cons_of_mem _ wasThere, isBehind⟩⟩
          · refine .inr ⟨same, .inr ⟨?_, isAlone⟩⟩
            rw [List.map_cons, List.mem_cons]
            rintro (isHead | isOld)
            · exact differs (isHead.symm.trans same)
            · exact wasNew isOld

/-- Inserting a configuration groups it with those that were grouped before. -/
theorem Groups.insert
    {configurations : List Configuration}
    {groups : List ((Nat × StackId) × List Nat)}
    (isGrouped : Groups configurations groups)
    (configuration : Configuration) :
    Groups (configurations ++ [configuration]) (insertIntoGroup configuration groups) where
  distinct := nodup_places_insertIntoGroup isGrouped.distinct configuration
  ascends := by
    intro group member
    rcases mem_insertIntoGroup isGrouped.distinct member with
      ⟨isOld, -⟩ | ⟨-, ⟨before, wasThere, isBehind⟩ | ⟨-, isAlone⟩⟩
    · exact isGrouped.ascends group isOld
    · rw [isBehind]
      exact pairwise_insertAlternative (isGrouped.ascends _ wasThere) _
    · simp [isAlone]
  mem_iff := by
    intro group member alternative
    simp only [List.mem_append, List.mem_singleton, or_and_right, exists_or, exists_eq_left]
    rcases mem_insertIntoGroup isGrouped.distinct member with
      ⟨isOld, other⟩ | ⟨same, ⟨before, wasThere, isBehind⟩ | ⟨wasNew, isAlone⟩⟩
    · rw [isGrouped.mem_iff group isOld, or_iff_left fun isThis => other isThis.1.symm]
    · rw [isBehind, Prediction.mem_insertAlternative_iff, isGrouped.mem_iff _ wasThere, or_comm]
      simp [same, eq_comm]
    · have noneBefore :
          ¬ ∃ earlier ∈ configurations,
              placeOf earlier = group.1 ∧ earlier.alternative = alternative := by
        rintro ⟨earlier, isEarlier, isPlace, -⟩
        exact wasNew ((isGrouped.isPlace_iff group.1).mpr ⟨earlier, isEarlier, isPlace⟩)
      rw [isAlone, List.mem_singleton, or_iff_right noneBefore]
      simp [same, eq_comm]
  isPlace_iff := by
    intro place
    rw [mem_places_insertIntoGroup_iff, isGrouped.isPlace_iff, or_comm, eq_comm]
    simp only [List.mem_append, List.mem_singleton, or_and_right, exists_or, exists_eq_left]

/-- Inserting configurations one after the other groups them. -/
theorem groups_foldl
    {earlier : List Configuration}
    {groups : List ((Nat × StackId) × List Nat)}
    (isGrouped : Groups earlier groups)
    (configurations : List Configuration) :
    Groups (earlier ++ configurations)
      (configurations.foldl (fun groups configuration => insertIntoGroup configuration groups)
        groups) := by
  induction configurations generalizing earlier groups with
  | nil => simpa using isGrouped
  | cons configuration configurations inductionHypothesis =>
      have grouped := inductionHypothesis (isGrouped.insert configuration)
      rwa [List.append_assoc, List.singleton_append] at grouped

/-- The alternatives of a set, by the places of its configurations. -/
theorem exists_groups (set : ConfigurationSet) :
    ∃ groups,
      Groups set.configurations.toList groups ∧ set.alternativesByPlace = groups.map Prod.snd := by
  have none : Groups [] [] := ⟨List.nodup_nil, by simp, by simp, by simp⟩
  refine ⟨_, groups_foldl none set.configurations.toList, ?_⟩
  rw [alternativesByPlace, Array.foldl_toList]

/-- Groups that all have members have a lowest one in common if each of them has it. -/
theorem commonLowest?_eq_some_iff
    {groups : List (List Nat)}
    (nonempty : ∀ group ∈ groups, group ≠ [])
    {lowest : Nat} :
    commonLowest? groups = some lowest ↔
      groups ≠ [] ∧ ∀ group ∈ groups, group.head? = some lowest := by
  cases groups with
  | nil => simp [commonLowest?]
  | cons group groups =>
      obtain ⟨first, others, rfl⟩ :=
        List.exists_cons_of_ne_nil (nonempty group List.mem_cons_self)
      simp only [commonLowest?, List.filterMap_cons, List.head?_cons,
        Option.ite_none_right_eq_some, Option.some.injEq, List.all_eq_true, beq_iff_eq,
        List.mem_filterMap, forall_exists_index, and_imp, List.forall_mem_cons, ne_eq,
        reduceCtorEq, not_false_eq_true, true_and]
      constructor
      · rintro ⟨allSame, rfl⟩
        refine ⟨rfl, fun group member => ?_⟩
        obtain ⟨head, tail, rfl⟩ :=
          List.exists_cons_of_ne_nil (nonempty group (List.mem_cons_of_mem _ member))
        rw [List.head?_cons, allSame head _ member rfl]
      · rintro ⟨rfl, allLowest⟩
        refine ⟨fun other group member isHead => ?_, rfl⟩
        rw [allLowest group member, Option.some.injEq] at isHead
        exact isHead.symm

/-- The groups have a lowest alternative in common exactly where the lowest alternative of the set
has twins. -/
theorem commonLowest?_alternativesByPlace_iff
    {set : ConfigurationSet}
    {alternative : Nat} :
    commonLowest? set.alternativesByPlace = some alternative ↔
      set.IsLowest alternative ∧ set.HasTwins alternative := by
  obtain ⟨groups, isGrouped, isAll⟩ := set.exists_groups
  have groupOf :
      ∀ configuration ∈ set.configurations,
        ∃ group ∈ groups, group.1 = placeOf configuration ∧ configuration.alternative ∈ group.2 := by
    intro configuration member
    have isMember := Array.mem_toList_iff.mpr member
    obtain ⟨group, isGroup, isPlace⟩ :=
      List.mem_map.mp ((isGrouped.isPlace_iff _).mpr ⟨configuration, isMember, rfl⟩)
    exact ⟨group, isGroup, isPlace,
      (isGrouped.mem_iff group isGroup _).mpr ⟨configuration, isMember, isPlace.symm, rfl⟩⟩
  have memberOf :
      ∀ group ∈ groups,
        ∃ configuration ∈ set.configurations, placeOf configuration = group.1 := by
    intro group isGroup
    obtain ⟨configuration, isMember, isPlace⟩ :=
      (isGrouped.isPlace_iff _).mp (List.mem_map_of_mem isGroup)
    exact ⟨configuration, Array.mem_toList_iff.mp isMember, isPlace⟩
  have nonempty : ∀ alternatives ∈ groups.map Prod.snd, alternatives ≠ [] := by
    rw [List.forall_mem_map]
    intro group isGroup isNil
    obtain ⟨configuration, isMember, isPlace⟩ := memberOf group isGroup
    have isThere :=
      (isGrouped.mem_iff group isGroup _).mpr
        ⟨configuration, Array.mem_toList_iff.mpr isMember, isPlace, rfl⟩
    rw [isNil] at isThere
    cases isThere
  rw [isAll, commonLowest?_eq_some_iff nonempty]
  simp only [ne_eq, List.map_eq_nil_iff, List.forall_mem_map]
  constructor
  · rintro ⟨notNil, isHead⟩
    have isLowestOf (group) (isGroup : group ∈ groups) :=
      (head?_eq_some_iff_of_pairwise (isGrouped.ascends group isGroup)).mp (isHead group isGroup)
    refine ⟨⟨?_, ?_⟩, ?_⟩
    · obtain ⟨group, isGroup⟩ := List.exists_mem_of_ne_nil groups notNil
      obtain ⟨configuration, isMember, -, same⟩ :=
        (isGrouped.mem_iff group isGroup _).mp (isLowestOf group isGroup).1
      exact ⟨configuration, Array.mem_toList_iff.mp isMember, same⟩
    · intro configuration member
      obtain ⟨group, isGroup, -, isThere⟩ := groupOf configuration member
      exact (isLowestOf group isGroup).2 _ isThere
    · intro configuration member _
      obtain ⟨group, isGroup, isPlace, -⟩ := groupOf configuration member
      obtain ⟨twin, isMember, twinPlace, same⟩ :=
        (isGrouped.mem_iff group isGroup _).mp (isLowestOf group isGroup).1
      obtain ⟨sameState, sameStack⟩ := Prod.mk.inj (twinPlace.trans isPlace)
      exact ⟨twin, Array.mem_toList_iff.mp isMember, same, sameState, sameStack⟩
  · rintro ⟨isLowest, hasTwins⟩
    refine ⟨?_, fun group isGroup => ?_⟩
    · obtain ⟨configuration, member, -⟩ := isLowest.isThere
      obtain ⟨group, isGroup, -⟩ := groupOf configuration member
      exact List.ne_nil_of_mem isGroup
    · rw [head?_eq_some_iff_of_pairwise (isGrouped.ascends group isGroup)]
      refine ⟨?_, fun other isThere => ?_⟩
      · obtain ⟨configuration, member, isPlace⟩ := memberOf group isGroup
        rw [isGrouped.mem_iff group isGroup]
        by_cases same : configuration.alternative = alternative
        · exact ⟨configuration, Array.mem_toList_iff.mpr member, isPlace, same⟩
        · obtain ⟨twin, isTwin, isAlternative, sameState, sameStack⟩ :=
            hasTwins configuration member same
          refine ⟨twin, Array.mem_toList_iff.mpr isTwin, ?_, isAlternative⟩
          rw [← isPlace, placeOf, placeOf, sameState, sameStack]
      · obtain ⟨configuration, isMember, -, rfl⟩ := (isGrouped.mem_iff group isGroup _).mp isThere
        exact isLowest.le configuration (Array.mem_toList_iff.mp isMember)

/-- An alternative with twins is wherever another one is. -/
theorem HasTwins.reaches
    {set : ConfigurationSet}
    {alternative : Nat}
    (hasTwins : set.HasTwins alternative)
    {store : StackStore}
    {other state : Nat}
    {returns : List Nat}
    (reaches : set.Reaches store other state returns) :
    set.Reaches store alternative state returns := by
  obtain ⟨configuration, member, rfl, rfl, holds⟩ := reaches
  by_cases same : configuration.alternative = alternative
  · exact ⟨configuration, member, same, rfl, holds⟩
  · obtain ⟨twin, isTwin, isAlternative, sameState, sameStack⟩ := hasTwins configuration member same
    exact ⟨twin, isTwin, isAlternative, sameState, sameStack ▸ holds⟩

/-- The only alternative of a set is the lowest one, and needs no twins. -/
theorem isLowest_of_uniqueAlternative?
    {set : ConfigurationSet}
    {alternative : Nat}
    (unique : set.uniqueAlternative? = some alternative) :
    set.IsLowest alternative ∧ set.HasTwins alternative := by
  have allSame :
      ∀ configuration ∈ set.configurations, configuration.alternative = alternative := by
    unfold uniqueAlternative? at unique
    split at unique
    · cases unique
    · simp only [Option.ite_none_right_eq_some, Option.some.injEq, Array.all_eq_true_iff_forall_mem,
        beq_iff_eq] at unique
      exact fun configuration member => (unique.1 configuration member).trans unique.2
  refine ⟨⟨Prediction.hasAlternative_of_uniqueAlternative? unique, ?_⟩, ?_⟩
  · exact fun configuration member => le_of_eq (allSame configuration member).symm
  · exact fun configuration member differs => absurd (allSame configuration member) differs

end ConfigurationSet

namespace Prediction

section Commitments

variable {σ : Type} [TokenSource σ]

/-- The stages that a prediction in context goes through. -/
inductive ContextStage.Course
    (setting : Setting)
    (first : ContextStage σ) :
    ContextStage σ → Prop where
  | start :
      Course setting first first
  | next
      {stage later : ContextStage σ}
      (course : Course setting first stage)
      (goesOn : stage.step setting = .inr later) :
      Course setting first later

/-- A prediction in context that gives an alternative does so in a step of one of its stages. -/
theorem ContextStage.Course.exists_step
    {setting : Setting}
    {first stage : ContextStage σ}
    (course : ContextStage.Course setting first stage)
    (limit : Nat)
    {alternative : Nat}
    (predicted :
      (simulateTokens setting limit stage.set stage.index stage.store stage.tokens).1 =
        .predicted alternative) :
    ∃ last store tokens,
      ContextStage.Course setting first last ∧
        last.step setting = .inl (.predicted alternative, store, tokens) := by
  induction limit generalizing stage with
  | zero => cases predicted
  | succ limit inductionHypothesis =>
      rw [ContextStage.simulateTokens_succ] at predicted
      cases stepped : stage.step setting with
      | inl settled =>
          obtain ⟨outcome, store, tokens⟩ := settled
          rw [stepped] at predicted
          dsimp only at predicted
          subst predicted
          exact ⟨stage, store, tokens, course, stepped⟩
      | inr next =>
          rw [stepped] at predicted
          exact inductionHypothesis (course.next stepped) predicted

/-- A token leads to configurations of which the lowest alternative can do all that any can. -/
structure ContextStage.Commits
    (setting : Setting)
    (stage : ContextStage σ)
    (alternative : Nat)
    (reached : ConfigurationSet)
    (after : StackStore) :
    Prop where
  leads : reachSet? setting stage.set stage.symbol true stage.store = (some reached, after)
  isLowest : reached.IsLowest alternative
  hasTwins : reached.HasTwins alternative
  reaches :
    ∀ other state returns,
      reached.Reaches after other state returns → reached.Reaches after alternative state returns

/-- A step gives an alternative where the token leads nowhere, or the alternative can do all that
any can. -/
theorem ContextStage.commits_of_step
    {setting : Setting}
    {stage : ContextStage σ}
    {alternative : Nat}
    {store : StackStore}
    {tokens : TokenStream σ}
    (settles : stage.step setting = .inl (.predicted alternative, store, tokens)) :
    (reachSet? setting stage.set stage.symbol true stage.store = (none, store) ∧
        finishedAlternative? setting stage.set store = some alternative) ∨
      ∃ reached, stage.Commits setting alternative reached store := by
  unfold step at settles
  cases leads : reachSet? setting stage.set stage.symbol true stage.store with
  | mk reached? after =>
      cases reached? with
      | none =>
          rw [leads] at settles
          dsimp only at settles
          cases finished : finishedAlternative? setting stage.set after with
          | none =>
              rw [finished] at settles
              cases settles
          | some only =>
              rw [finished] at settles
              cases settles
              exact .inl ⟨rfl, finished⟩
      | some reached =>
          rw [leads] at settles
          dsimp only at settles
          cases decided :
            reached.uniqueAlternative?.or (commonLowest? reached.alternativesByPlace) with
          | none =>
              rw [decided] at settles
              cases settles
          | some only =>
              rw [decided] at settles
              cases settles
              have ⟨isLowest, hasTwins⟩ :
                  reached.IsLowest alternative ∧ reached.HasTwins alternative := by
                rcases Option.or_eq_some_iff.mp decided with unique | ⟨-, common⟩
                · exact ConfigurationSet.isLowest_of_uniqueAlternative? unique
                · exact ConfigurationSet.commonLowest?_alternativesByPlace_iff.mp common
              exact .inr ⟨reached, leads, isLowest, hasTwins, fun _ _ _ => hasTwins.reaches⟩

/--
The groups of alternatives that share a state and a stack have a lowest member in common exactly
where it is the lowest alternative of the set and every configuration of another alternative has a
twin of it, with the same state and stack. So a prediction in context that gives an alternative
does so at a token that leads nowhere, or because the alternative is in every place that any of the
alternatives left has come to.
-/
theorem commits_where_lowest_has_twins :
    (∀ (set : ConfigurationSet) (alternative : Nat),
      commonLowest? set.alternativesByPlace = some alternative ↔
        set.IsLowest alternative ∧ set.HasTwins alternative) ∧
      ∀ (setting : Setting) (decisionState : Nat) (returnStates : List Nat) (store : StackStore)
        (tokens : TokenStream σ) (start alternative : Nat),
        (predictInContext setting decisionState returnStates store tokens start).1 =
            .predicted alternative →
          ∃ last after,
            ContextStage.Course setting
                (ContextStage.first setting decisionState returnStates store tokens start) last ∧
              ((reachSet? setting last.set last.symbol true last.store = (none, after) ∧
                  finishedAlternative? setting last.set after = some alternative) ∨
                ∃ reached, last.Commits setting alternative reached after) := by
  refine ⟨fun _ _ => ConfigurationSet.commonLowest?_alternativesByPlace_iff, ?_⟩
  intro setting decisionState returnStates store tokens start alternative predicted
  rw [ContextStage.predictInContext_eq] at predicted
  obtain ⟨last, after, _, course, settles⟩ :=
    ContextStage.Course.exists_step .start (lookaheadBound tokens) predicted
  exact ⟨last, after, course, ContextStage.commits_of_step settles⟩

end Commitments

namespace TwoAlike

/-- A parser of `s : 'a' | 'a'`, which decides at state 2. -/
def encoded : List Int :=
  [4, 1, 1, 6, 2, 0, 7, 0, 3, 0, 5, 1, 0, 1, 0, 8, 0, 0, 0, 1, 0, 0, 0, 6,
    0, 2, 1, 0, 0, 0, 2, 3, 1, 0, 0, 0, 2, 4, 1, 0, 0, 0, 3, 5, 5, 1, 0, 0, 4, 5, 5, 1, 0, 0,
    5, 1, 1, 0, 0, 0, 1, 2]

/-- Predictions in the network of the encoding. -/
def setting : Setting where
  network := (Network.decode encoded).toOption.getD default
  precedenceRule := none
  precedence := 0

/-- The token `'a'`. -/
def tokens : TokenStream ListedTokens :=
  ((TokenStream.ofSource (.ofList [(1, "a", 0)])).nextVisible 0).2

/-- Two alternatives in one place, the second of them with a condition of its own as well. -/
def set : ConfigurationSet where
  configurations :=
    #[.start 1 2 StackId.empty, .start 1 1 StackId.empty,
      { Configuration.start 1 2 StackId.empty with condition := .precedence 3 }]
  index := ∅
  fullContext := true
  hasConditions := true

set_option maxRecDepth 20000 in
/-- The lowest alternative has twins, and a prediction of two that are alike commits itself to it. -/
theorem lowest_has_twins :
    set.IsLowest 1 ∧ set.HasTwins 1 ∧
      (predictInContext setting 2 [] StackStore.initial tokens 0).1 = .predicted 1 ∧
        ∃ last after,
          ContextStage.Course setting
              (ContextStage.first setting 2 [] StackStore.initial tokens 0) last ∧
            ((reachSet? setting last.set last.symbol true last.store = (none, after) ∧
                finishedAlternative? setting last.set after = some 1) ∨
              ∃ reached, last.Commits setting 1 reached after) := by
  have isCommon : commonLowest? set.alternativesByPlace = some 1 := by decide
  have predicted :
      (predictInContext setting 2 [] StackStore.initial tokens 0).1 = .predicted 1 := by
    cbv
  obtain ⟨isLowest, hasTwins⟩ :=
    (commits_where_lowest_has_twins (σ := ListedTokens)).1 set 1 |>.mp isCommon
  exact ⟨isLowest, hasTwins, predicted,
    commits_where_lowest_has_twins.2 setting 2 [] StackStore.initial tokens 0 1 predicted⟩

end TwoAlike

end Prediction

end GrammarService
