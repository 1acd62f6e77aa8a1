import GrammarService.Proofs.Prediction.ConfigurationSets
import GrammarService.Proofs.Prediction.Merging

namespace GrammarService

/-!
# What configuration sets stand for

A configuration set stands for the places that an alternative has come to: the state of one of its
configurations with the returns that the configuration's stack stands for. Adding a configuration
adds what it stands for. It adds nothing else in full context, where stacks are merged exactly.
-/

namespace Configuration

/-- The configuration can be in a set: its stack is in the store, and it is not guarded. -/
structure Fits
    (store : StackStore)
    (fullContext : Bool)
    (configuration : Configuration) :
    Prop where
  valid : configuration.stack < store.nodes.size
  bottomless : fullContext = false → store.Bottomless configuration.stack
  unguarded : configuration.condition = .always

theorem Fits.grows
    {store after : StackStore}
    {fullContext : Bool}
    {configuration : Configuration}
    (fits : configuration.Fits store fullContext)
    (wellMade : store.WellMade)
    (grows : store.Grows after) :
    configuration.Fits after fullContext where
  valid := grows.valid fits.valid
  bottomless isWild := (grows.bottomless_iff wellMade fits.valid).mpr (fits.bottomless isWild)
  unguarded := fits.unguarded

end Configuration

namespace ConfigurationSet

variable
  {set : ConfigurationSet}
  {store after : StackStore}
  {configuration : Configuration}

/-- A configuration set has come to a place for an alternative. -/
def Reaches
    (set : ConfigurationSet)
    (store : StackStore)
    (alternative state : Nat)
    (returns : List Nat) :
    Prop :=
  ∃ configuration ∈ set.configurations,
    configuration.alternative = alternative ∧ configuration.state = state ∧
      store.Holds (!set.fullContext) configuration.stack returns

/-- Every configuration of the set can be in it, and the index tells the truth. -/
structure Fits
    (set : ConfigurationSet)
    (store : StackStore) :
    Prop where
  wellMade : store.WellMade
  each : ∀ configuration ∈ set.configurations, configuration.Fits store set.fullContext
  indexed :
    ∀ {key : Nat × Nat × Condition} {position : Nat},
      set.index[key]? = some position →
        ∃ configuration,
          set.configurations[position]? = some configuration ∧ indexKey configuration = key
  unguarded : set.hasConditions = false

theorem Fits.empty
    (wellMade : store.WellMade)
    (fullContext : Bool) :
    (ConfigurationSet.empty fullContext).Fits store where
  wellMade := wellMade
  each := by simp [ConfigurationSet.empty]
  indexed := by simp [ConfigurationSet.empty]
  unguarded := rfl

theorem Fits.grows
    (fits : set.Fits store)
    (wellMade : after.WellMade)
    (grows : store.Grows after) :
    set.Fits after where
  wellMade := wellMade
  each configuration member := (fits.each configuration member).grows fits.wellMade grows
  indexed := fits.indexed
  unguarded := fits.unguarded

/-- In a larger store a set stands for the same places. -/
theorem Fits.reaches_iff
    (fits : set.Fits store)
    (grows : store.Grows after)
    {alternative state : Nat}
    {returns : List Nat} :
    set.Reaches after alternative state returns ↔
      set.Reaches store alternative state returns := by
  refine exists_congr fun configuration => and_congr_right fun member => ?_
  rw [grows.holds_iff fits.wellMade (fits.each configuration member).valid]

/-- The places that a configuration stands for. -/
def Standing
    (store : StackStore)
    (fullContext : Bool)
    (configuration : Configuration)
    (alternative state : Nat)
    (returns : List Nat) :
    Prop :=
  configuration.alternative = alternative ∧ configuration.state = state ∧
    store.Holds (!fullContext) configuration.stack returns

/-- A set has come to further places, and in full context to no others. -/
structure Gains
    (set : ConfigurationSet)
    (store : StackStore)
    (further : Nat → Nat → List Nat → Prop)
    (result : ConfigurationSet × StackStore) :
    Prop where
  fits : result.1.Fits result.2
  grows : store.Grows result.2
  fullContext : result.1.fullContext = set.fullContext
  kept :
    ∀ {alternative state : Nat} {returns : List Nat},
      set.Reaches store alternative state returns →
        result.1.Reaches result.2 alternative state returns
  gained :
    ∀ {alternative state : Nat} {returns : List Nat},
      further alternative state returns →
        result.1.Reaches result.2 alternative state returns
  only :
    set.fullContext = true →
      ∀ {alternative state : Nat} {returns : List Nat},
        result.1.Reaches result.2 alternative state returns →
          set.Reaches store alternative state returns ∨ further alternative state returns

/-- A configuration without a twin adds the places that it stands for. -/
theorem Fits.gains_add_of_new
    (fits : set.Fits store)
    (fitting : configuration.Fits store set.fullContext)
    (new : set.index[indexKey configuration]? = none) :
    set.Gains store (Standing store set.fullContext configuration)
      ((set.add configuration).run store) := by
  have unguarded : set.hasConditionsWith configuration = false := by
    simp [hasConditionsWith, fits.unguarded, fitting.unguarded]
  rw [add_of_new new]
  refine ⟨⟨fits.wellMade, ?_, ?_, unguarded⟩, .refl store, rfl, ?_, ?_, ?_⟩
  · intro present member
    rcases Array.mem_push.mp member with isOld | rfl
    · exact fits.each present isOld
    · exact fitting
  · intro key position isKnown
    simp only [Std.HashMap.getElem?_insert] at isKnown
    split at isKnown
    · rename_i isKey
      cases isKnown
      exact ⟨configuration, by simp, eq_of_beq isKey⟩
    · obtain ⟨present, isPresent, isKey⟩ := fits.indexed isKnown
      obtain ⟨inBounds, rfl⟩ := Array.getElem?_eq_some_iff.mp isPresent
      exact ⟨_, by simp [Array.getElem?_push_lt inBounds], isKey⟩
  · rintro alternative state returns ⟨present, member, reached⟩
    exact ⟨present, Array.mem_push_of_mem _ member, reached⟩
  · intro alternative state returns standing
    exact ⟨configuration, Array.mem_push_self, standing⟩
  · rintro _ alternative state returns ⟨present, member, reached⟩
    rcases Array.mem_push.mp member with isOld | rfl
    · exact .inl ⟨present, isOld, reached⟩
    · exact .inr reached

/-- A configuration that is joined to its twin adds the places that it stands for. -/
theorem Fits.gains_add_of_known
    (fits : set.Fits store)
    (fitting : configuration.Fits store set.fullContext)
    {position : Nat}
    (known : set.index[indexKey configuration]? = some position) :
    set.Gains store (Standing store set.fullContext configuration)
      ((set.add configuration).run store) := by
  have unguarded : set.hasConditionsWith configuration = false := by
    simp [hasConditionsWith, fits.unguarded, fitting.unguarded]
  obtain ⟨twin, isTwin, sameKey⟩ := fits.indexed known
  obtain ⟨inBounds, isAt⟩ := Array.getElem?_eq_some_iff.mp isTwin
  have twinMember : twin ∈ set.configurations := isAt ▸ Array.getElem_mem inBounds
  have twinFits := fits.each twin twinMember
  simp only [indexKey, Prod.mk.injEq] at sameKey
  obtain ⟨sameState, sameAlternative, _⟩ := sameKey
  rw [add_of_known known]
  have isDefault : set.configurations.getD position configuration = twin := by
    simp [Array.getD_eq_getD_getElem?, isTwin]
  simp only [isDefault]
  have merges :
      store.Merges (!set.fullContext) twin.stack configuration.stack
        ((StackStore.merge twin.stack configuration.stack (!set.fullContext)).run store) :=
    StackStore.merges_merge fits.wellMade twinFits.valid fitting.valid
  generalize (StackStore.merge twin.stack configuration.stack (!set.fullContext)).run store =
    merged at merges
  have holds_iff :
      ∀ {present : Configuration} {returns : List Nat},
        present.Fits store set.fullContext →
          (merged.2.Holds (!set.fullContext) present.stack returns ↔
            store.Holds (!set.fullContext) present.stack returns) := by
    intro present returns presentFits
    exact merges.grows.holds_iff fits.wellMade presentFits.valid
  have mem_iff :
      ∀ {present : Configuration},
        present ∈
            set.configurations.modify position (·.joinedWith configuration merged.1) →
          present ∈ set.configurations ∨ present = twin.joinedWith configuration merged.1 := by
    intro present member
    obtain ⟨place, inRange, rfl⟩ := Array.mem_iff_getElem.mp member
    simp only [Array.size_modify] at inRange
    rw [Array.getElem_modify]
    split
    · rename_i isPlace
      subst isPlace
      exact .inr (by rw [isAt])
    · exact .inl (Array.getElem_mem inRange)
  have joinedMember :
      twin.joinedWith configuration merged.1 ∈
        set.configurations.modify position (·.joinedWith configuration merged.1) := by
    refine Array.mem_iff_getElem.mpr ⟨position, by simpa using inBounds, ?_⟩
    rw [Array.getElem_modify, if_pos rfl, isAt]
  have joinedFits :
      (twin.joinedWith configuration merged.1).Fits merged.2 set.fullContext := by
    refine ⟨merges.valid, ?_, twinFits.unguarded⟩
    intro isWild
    exact merges.joins.bottomless (by simp [isWild])
      ((twinFits.grows fits.wellMade merges.grows).bottomless isWild)
      ((fitting.grows fits.wellMade merges.grows).bottomless isWild)
  refine ⟨⟨merges.wellMade, ?_, ?_, unguarded⟩, merges.grows, rfl, ?_, ?_, ?_⟩
  · intro present member
    rcases mem_iff member with isOld | rfl
    · exact (fits.each present isOld).grows fits.wellMade merges.grows
    · exact joinedFits
  · intro key place isKnown
    obtain ⟨present, isPresent, isKey⟩ := fits.indexed isKnown
    simp only [Array.getElem?_modify, isPresent, Option.map_some]
    split
    · exact ⟨_, rfl, isKey⟩
    · exact ⟨_, rfl, isKey⟩
  · rintro alternative state returns ⟨present, member, rfl, rfl, holds⟩
    obtain ⟨place, inRange, isPlace⟩ := Array.mem_iff_getElem.mp member
    by_cases isTwinPlace : position = place
    · have isTwin' : present = twin := by
        subst isTwinPlace
        rw [← isPlace, isAt]
      subst isTwin'
      exact ⟨_, joinedMember, rfl, rfl,
        merges.joins.upper (.inl ((holds_iff twinFits).mpr holds))⟩
    · refine ⟨present, ?_, rfl, rfl, (holds_iff (fits.each present member)).mpr holds⟩
      refine Array.mem_iff_getElem.mpr ⟨place, by simpa using inRange, ?_⟩
      rw [Array.getElem_modify, if_neg isTwinPlace, isPlace]
  · rintro alternative state returns ⟨rfl, rfl, holds⟩
    exact ⟨_, joinedMember, sameAlternative, sameState,
      merges.joins.upper (.inr ((holds_iff fitting).mpr holds))⟩
  · rintro isFull alternative state returns ⟨present, member, rfl, rfl, holds⟩
    rcases mem_iff member with isOld | rfl
    · exact .inl ⟨present, isOld, rfl, rfl, (holds_iff (fits.each present isOld)).mp holds⟩
    · simp only [isFull, Bool.not_true] at holds merges
      rcases merges.joins.lower rfl holds with holds | holds
      · refine .inl ⟨twin, twinMember, rfl, rfl, ?_⟩
        exact (holds_iff twinFits).mp (by simpa [isFull] using holds)
      · refine .inr ⟨sameAlternative.symm, sameState.symm, ?_⟩
        exact (holds_iff fitting).mp (by simpa [isFull] using holds)

/-- Adding a configuration adds the places that it stands for. -/
theorem Fits.gains_add
    (fits : set.Fits store)
    (fitting : configuration.Fits store set.fullContext) :
    set.Gains store (Standing store set.fullContext configuration)
      ((set.add configuration).run store) := by
  cases known : set.index[indexKey configuration]? with
  | none => exact fits.gains_add_of_new fitting known
  | some position => exact fits.gains_add_of_known fitting known

variable
  {further more : Nat → Nat → List Nat → Prop}
  {result last : ConfigurationSet × StackStore}

theorem Gains.refl
    (fits : set.Fits store) :
    set.Gains store (fun _ _ _ => False) (set, store) where
  fits := fits
  grows := .refl store
  fullContext := rfl
  kept := id
  gained := False.elim
  only _ := .inl

theorem Gains.inLater
    (gains : set.Gains store further result)
    (wellMade : after.WellMade)
    (grows : result.2.Grows after) :
    set.Gains store further (result.1, after) where
  fits := gains.fits.grows wellMade grows
  grows := gains.grows.trans grows
  fullContext := gains.fullContext
  kept reached := (gains.fits.reaches_iff grows).mpr (gains.kept reached)
  gained isFurther := (gains.fits.reaches_iff grows).mpr (gains.gained isFurther)
  only isFull _ _ _ reached := gains.only isFull ((gains.fits.reaches_iff grows).mp reached)

theorem Gains.trans
    (earlier : set.Gains store further result)
    (later : result.1.Gains result.2 more last) :
    set.Gains store
      (fun alternative state returns =>
        further alternative state returns ∨ more alternative state returns) last where
  fits := later.fits
  grows := earlier.grows.trans later.grows
  fullContext := later.fullContext.trans earlier.fullContext
  kept reached := later.kept (earlier.kept reached)
  gained either := either.elim (fun isFurther => later.kept (earlier.gained isFurther)) later.gained
  only isFull _ _ _ reached := by
    rcases later.only (earlier.fullContext.trans isFull) reached with reached | isMore
    · rcases earlier.only isFull reached with reached | isFurther
      · exact .inl reached
      · exact .inr (.inl isFurther)
    · exact .inr (.inr isMore)

theorem Gains.congr
    (gains : set.Gains store further result)
    (same :
      ∀ {alternative state : Nat} {returns : List Nat},
        further alternative state returns ↔ more alternative state returns) :
    set.Gains store more result where
  fits := gains.fits
  grows := gains.grows
  fullContext := gains.fullContext
  kept := gains.kept
  gained isMore := gains.gained (same.mpr isMore)
  only isFull _ _ _ reached := (gains.only isFull reached).imp_right same.mp

/-- Adding several configurations adds the places that they stand for. -/
theorem Fits.gains_addAll
    (added : List Configuration)
    (fits : set.Fits store)
    (fitting : ∀ configuration ∈ added, configuration.Fits store set.fullContext) :
    set.Gains store
      (fun alternative state returns =>
        ∃ configuration ∈ added,
          Standing store set.fullContext configuration alternative state returns)
      (Prediction.addAll set store added) := by
  induction added generalizing set store with
  | nil => exact (Gains.refl fits).congr (by simp)
  | cons head tail inductionHypothesis =>
      have one := fits.gains_add (fitting head List.mem_cons_self)
      have tailFitting :
          ∀ configuration ∈ tail,
            configuration.Fits ((set.add head).run store).2
              ((set.add head).run store).1.fullContext := by
        intro configuration member
        rw [one.fullContext]
        exact (fitting configuration (List.mem_cons_of_mem head member)).grows fits.wellMade
          one.grows
      refine (one.trans (inductionHypothesis one.fits tailFitting)).congr ?_
      intro alternative state returns
      have standing_iff :
          ∀ configuration ∈ tail,
            Standing ((set.add head).run store).2 ((set.add head).run store).1.fullContext
                configuration alternative state returns ↔
              Standing store set.fullContext configuration alternative state returns := by
        intro configuration member
        have valid := (fitting configuration (List.mem_cons_of_mem head member)).valid
        simp only [Standing, one.fullContext, one.grows.holds_iff fits.wellMade valid]
      simp only [List.mem_cons, exists_eq_or_imp]
      refine or_congr_right (exists_congr fun configuration => ?_)
      exact and_congr_right (standing_iff configuration)

end ConfigurationSet

end GrammarService
