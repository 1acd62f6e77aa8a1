import GrammarService.Proofs.Prediction.Ending
import GrammarService.Proofs.Prediction.Stations

namespace GrammarService

/-!
# The work list empties

Between two configurations that are checked a way only goes along free steps, and there are no more
of these than a walk without a token can have. Each configuration that is checked takes one station
from those that remain. So the stations that remain and the free steps since the last of them bound
what is left to do, whatever is in the work list and however often a rule's end leads to its
callers.
-/

namespace Prediction

section Terminating

variable
  {network : Network}
  {setting : Setting}
  {endIsFree fullContext : Bool}
  {origin configuration : Configuration}
  {visit next : Visit}
  {edge : Edge}
  {search result : Search}
  {base : StackId}
  {frames : List Nat}
  {limit : Nat}
  {job : Job}
  {jobs : List Job}

/-- A number of steps that no walk without a token has on the way from a configuration. -/
def spanFrom
    (network : Network)
    (origin : Configuration) :
    Nat :=
  network.innerBound network.states.size * (origin.stack + network.states.size + 1)

theorem spans_spanFrom
    (coherent : network.Coherent)
    (acyclic : network.Acyclic)
    (origin : Configuration) :
    Spans network (origin.stack + network.states.size) (spanFrom network origin) := by
  intro steps first last low walk
  have short := walk.lt_bound coherent acyclic (Network.callsAtMost_size coherent)
  exact short.trans_le (Nat.mul_le_mul_left _ (by omega))

/-- The stations where no configuration was followed yet are among the remaining ones. -/
def StationsRemain
    (network : Network)
    (origin : Configuration)
    (search : Search)
    (remaining : Finset Station) :
    Prop :=
  ∀ station ∈ stationsFrom network origin,
    (∀ stack,
      Piled search.store station.base station.place.returns stack →
        search.visited.contains (station.key origin.alternative stack) = false) →
      station ∈ remaining

namespace StationsRemain

variable {remaining : Finset Station}

theorem advances
    (remain : StationsRemain network origin search remaining)
    (advances : Advances search result) :
    StationsRemain network origin result remaining := by
  intro station isStation notVisited
  refine remain station isStation fun stack piled => ?_
  have notLater := notVisited stack (piled.extended advances.extension)
  by_contra isVisited
  rw [advances.visited (by simpa using isVisited)] at notLater
  cases notLater

/-- Following a configuration that was not followed yet takes its station. -/
theorem mark
    (remain : StationsRemain network origin search remaining)
    (onWay : IsOnWay network origin search.store visit.configuration base frames)
    (isStation :
      Station.ofConfiguration visit.configuration base frames ∈ stationsFrom network origin)
    (checked : visit.checked = true)
    (isNew : search.isKnown visit = false) :
    Station.ofConfiguration visit.configuration base frames ∈ remaining ∧
      StationsRemain network origin (search.mark visit)
        (remaining.erase (Station.ofConfiguration visit.configuration base frames)) := by
  have isKey :
      (Station.ofConfiguration visit.configuration base frames).key origin.alternative
          visit.configuration.stack =
        visit.configuration.key := by
    rw [← onWay.alternative]
    rfl
  have isMark :
      search.mark visit =
        { search with visited := search.visited.insert visit.configuration.key } := by
    simp [Search.mark, checked]
  constructor
  · refine remain _ isStation fun stack piled => ?_
    obtain rfl := piled.unique onWay.piled
    rw [isKey]
    simpa [Search.isKnown, checked] using isNew
  · intro station isOther notVisited
    rw [isMark] at notVisited
    refine Finset.mem_erase.mpr ⟨?_, remain station isOther fun stack piled => ?_⟩
    · rintro rfl
      have isVisited := notVisited _ onWay.piled
      rw [isKey] at isVisited
      simp at isVisited
    · have notLater := notVisited stack piled
      rw [Std.HashSet.contains_insert, Bool.or_eq_false_iff] at notLater
      exact notLater.2

end StationsRemain

/-- What is left to do behind a configuration is bounded by a limit. -/
structure IsBoundedBehind
    (network : Network)
    (origin : Configuration)
    (limit : Nat)
    (configuration : Configuration)
    (search : Search)
    (base : StackId)
    (frames : List Nat) :
    Prop where
  onWay : IsOnWay network origin search.store configuration base frames
  bounded :
    ∃ remaining steps,
      StationsRemain network origin search remaining ∧
        Walked network (origin.stack + network.states.size) steps search.store configuration ∧
          remaining.card * (spanFrom network origin + 1) + (spanFrom network origin - steps) ≤ limit

/-- What is left to do for a visit is bounded by a limit. -/
structure IsBounded
    (network : Network)
    (origin : Configuration)
    (limit : Nat)
    (visit : Visit)
    (search : Search) :
    Prop where
  onWay : ∃ base frames, IsOnWay network origin search.store visit.configuration base frames
  bounded :
    ∃ remaining,
      StationsRemain network origin search remaining ∧
        ((visit.checked = true ∧ visit.configuration.state < network.states.size ∧
            remaining.card * (spanFrom network origin + 1) + 1 ≤ limit) ∨
          (visit.checked = false ∧
            ∃ steps,
              Walked network (origin.stack + network.states.size) steps search.store
                  visit.configuration ∧
                remaining.card * (spanFrom network origin + 1) +
                    (spanFrom network origin - steps) + 1 ≤ limit))

theorem IsBoundedBehind.advances
    (isBounded : IsBoundedBehind network origin limit configuration search base frames)
    (holds : search.Holds)
    (valid : search.store.IsIn configuration.stack)
    (advances : Advances search result) :
    IsBoundedBehind network origin limit configuration result base frames where
  onWay := isBounded.onWay.extended advances.extension
  bounded := by
    obtain ⟨remaining, steps, remain, walked, high⟩ := isBounded.bounded
    exact ⟨remaining, steps, remain.advances advances,
      walked.grows holds.wellMade valid advances.extension.toGrows, high⟩

theorem IsBounded.advances
    (isBounded : IsBounded network origin limit visit search)
    (holds : search.Holds)
    (valid : search.store.IsIn visit.configuration.stack)
    (advances : Advances search result) :
    IsBounded network origin limit visit result where
  onWay := by
    obtain ⟨base, frames, onWay⟩ := isBounded.onWay
    exact ⟨base, frames, onWay.extended advances.extension⟩
  bounded := by
    obtain ⟨remaining, remain, isChecked | ⟨notChecked, steps, walked, high⟩⟩ := isBounded.bounded
    · exact ⟨remaining, remain.advances advances, .inl isChecked⟩
    · exact ⟨remaining, remain.advances advances, .inr ⟨notChecked, steps,
        walked.grows holds.wellMade valid advances.extension.toGrows, high⟩⟩

/-- What is left to do for a job is bounded by a limit. -/
def Job.IsBounded
    (network : Network)
    (origin : Configuration)
    (limit : Nat)
    (search : Search) :
    Job → Prop
  | follow visit => Prediction.IsBounded network origin limit visit search
  | goAlong visit =>
      ∃ base frames,
        IsBoundedBehind network origin limit visit.configuration search base frames ∧
          ((network.state visit.configuration.state).kind = .ruleStop → frames = [])
  | keep _ => True

theorem Job.IsBounded.advances
    (isBounded : job.IsBounded network origin limit search)
    (holds : search.Holds)
    (isIn : job.IsIn search.store)
    (advances : Advances search result) :
    job.IsBounded network origin limit result := by
  cases job with
  | follow visit => exact Prediction.IsBounded.advances isBounded holds isIn advances
  | goAlong visit =>
      obtain ⟨base, frames, isBehind, outside⟩ := isBounded
      exact ⟨base, frames, isBehind.advances holds isIn advances, outside⟩
  | keep configuration => trivial

section Bounded

variable
  (coherent : network.Coherent)
  (acyclic : network.AcyclicAtEnd)
  (holds : search.Holds)

include coherent acyclic holds

/-- A free step from a configuration leads to a visit with one step less to go. -/
theorem IsBoundedBehind.step
    (isBounded : IsBoundedBehind network origin limit configuration search base frames)
    (valid : search.store.IsIn configuration.stack)
    (onWay : ∃ base frames, IsOnWay network origin search.store next.configuration base frames)
    (notChecked : next.checked = false)
    (step :
      ∀ {returns : List Nat},
        search.store.Holds false next.configuration.stack returns →
          ∃ before,
            search.store.Holds false configuration.stack before ∧
              network.FreeStep ⟨configuration.state, before⟩
                ⟨next.configuration.state, returns⟩) :
    IsBounded network origin limit next search where
  onWay := onWay
  bounded := by
    obtain ⟨remaining, steps, remain, walked, high⟩ := isBounded.bounded
    have short :=
      walked.lt_span (spans_spanFrom coherent acyclic.acyclic origin) holds.wellMade valid
    exact ⟨remaining, remain, .inr ⟨notChecked, steps + 1, walked.step step, by omega⟩⟩

/-- What is left to do for a configuration is bounded as what is behind it. -/
theorem isBounded_of_mem_jobsAt
    (isBounded : IsBoundedBehind network origin limit visit.configuration search base frames)
    (valid : search.store.IsIn visit.configuration.stack)
    (member : job ∈ jobsAt network fullContext search.store visit) :
    job.IsBounded network origin limit search := by
  unfold jobsAt at member
  split at member
  · rename_i along
    rw [List.mem_singleton.mp member]
    refine ⟨base, frames, isBounded, fun stopped => ?_⟩
    have stands := isBounded.onWay.piled.standsOn holds.wellMade
    rw [stack_eq_empty_of_goesAlongEdges along stopped] at stands
    exact (stands.base_of_empty holds.wellMade).1
  · split at member
    · rw [List.mem_singleton.mp member]
      trivial
    · rename_i notAlong _
      have stopped := stopped_of_not_goesAlongEdges notAlong
      obtain ⟨⟨returnState, below⟩, present, rfl⟩ := List.mem_map.mp member
      cases returnState with
      | some follow =>
          refine isBounded.step coherent acyclic holds valid
            (isBounded.onWay.return_ holds.wellMade stopped present rfl) rfl ?_
          intro returns isHeld
          exact ⟨_, .entry present isHeld, .leave stopped⟩
      | none =>
          unfold jobBehind
          simp only
          split
          · trivial
          · exact ⟨base, frames, isBounded,
              fun _ => isBounded.onWay.frames_eq_nil holds.wellMade present rfl⟩

/-- What is behind an edge of a configuration is bounded as what is behind the configuration. -/
theorem IsBoundedBehind.lies
    (isBounded : IsBoundedBehind network origin limit visit.configuration search base frames)
    (outside :
      (network.state visit.configuration.state).kind = .ruleStop → frames = [])
    (valid : search.store.IsIn visit.configuration.stack)
    (present : edge ∈ (network.state visit.configuration.state).edges)
    (lies :
      LiesBehind endIsFree search.store visit (network.state visit.configuration.state) edge
        next) :
    IsBounded network origin limit next search := by
  have onWay :
      ∃ base frames, IsOnWay network origin search.store next.configuration base frames :=
    ⟨base, isBounded.onWay.behind acyclic coherent outside present lies⟩
  -- Behind an unchecked edge one more free step is taken; what is checked waits for its station.
  cases isChecked : next.checked with
  | true =>
      obtain ⟨remaining, steps, remain, walked, high⟩ := isBounded.bounded
      have short :=
        walked.lt_span (spans_spanFrom coherent acyclic.acyclic origin) holds.wellMade valid
      have inBounds := lies.isTarget ▸ (coherent.target present).lt_size
      exact ⟨onWay, remaining, remain, .inl ⟨isChecked, inBounds, by omega⟩⟩
  | false =>
      have checked := lies.checked
      rw [isChecked, eq_comm, Bool.or_eq_false_iff, decide_eq_false_iff_not, Bool.not_eq_false']
        at checked
      obtain ⟨inside, isEpsilon⟩ := checked
      refine isBounded.step coherent acyclic holds valid onWay isChecked ?_
      intro returns isHeld
      rw [lies.isTarget]
      have pushes := lies.pushes
      generalize next.configuration.stack = stack at pushes isHeld
      cases pushes with
      | pass passes =>
          have notCall := Edge.not_isCall_of_isPassed passes
          have isFree : edge.isFree = true := by
            refine (Edge.isFree_or_call_of_isEpsilon isEpsilon).resolve_right ?_
            rintro ⟨target, rule, precedence, follow, rfl⟩
            cases notCall
          exact ⟨returns, isHeld, .edge inside present isFree⟩
      | call isPushed =>
          have isSingle := holds.wellMade.interned isPushed
          obtain ⟨before, rfl, isBelow⟩ := holds.wellMade.exists_holds_of_single isSingle isHeld
          exact ⟨before, isBelow, .call inside present⟩

/-- What is left to do for a visit that is followed has one step less to go. -/
theorem IsBounded.behind
    (isBounded : IsBounded network origin (limit + 1) visit search)
    (valid : search.store.IsIn visit.configuration.stack)
    (isNew : search.isKnown visit = false) :
    ∃ base frames,
      IsBoundedBehind network origin limit visit.configuration (search.mark visit) base frames := by
  obtain ⟨⟨base, frames, onWay⟩, remaining, remain, ⟨checked, inBounds, high⟩ | unchecked⟩ :=
    isBounded
  · -- The station is taken from those that remain, and free steps are counted anew from here.
    have isStation := onWay.mem_stationsFrom coherent inBounds
    obtain ⟨isRemaining, stillRemain⟩ := remain.mark onWay isStation checked isNew
    refine ⟨base, frames, onWay.extended (holds.advances_mark visit).extension, _, 0, stillRemain,
      ?_, ?_⟩
    · intro returns isHeld
      rw [store_mark] at isHeld
      exact ⟨⟨visit.configuration.state, returns⟩,
        onWay.length_le coherent holds.wellMade isHeld, .stay⟩
    · have isProduct := Finset.card_erase_add_one isRemaining
      rw [← isProduct, Nat.succ_mul] at high
      omega
  · obtain ⟨notChecked, steps, walked, high⟩ := unchecked
    have short :=
      walked.lt_span (spans_spanFrom coherent acyclic.acyclic origin) holds.wellMade valid
    have isMark : search.mark visit = search := by
      simp [Search.mark, notChecked]
    rw [isMark]
    exact ⟨base, frames, onWay, remaining, steps, remain, walked, by omega⟩

end Bounded

/-- Doing some jobs comes to an end, where the search has gone on. -/
def Ends
    (setting : Setting)
    (endIsFree : Bool)
    (jobs : List Job)
    (search : Search) :
    Prop :=
  ∃ result, Finishes true setting endIsFree jobs search result ∧ Advances search result

namespace Ends

/-- A job ends if what it leaves to do does. -/
theorem of_perform
    (holds : search.Holds)
    (isIn : job.IsIn search.store)
    (ends :
      Ends setting endIsFree (job.perform true setting endIsFree search).1
        (job.perform true setting endIsFree search).2) :
    Ends setting endIsFree [job] search := by
  obtain ⟨result, finishes, advances⟩ := ends
  exact ⟨result, .next (by rwa [List.append_nil]),
    (isIn.perform holds setting endIsFree).1.trans advances⟩

/-- Jobs end if each of them does whenever its turn comes. -/
theorem of_each
    (holds : search.Holds)
    (each :
      ∀ job ∈ jobs,
        ∀ {later : Search}, Advances search later → Ends setting endIsFree [job] later) :
    Ends setting endIsFree jobs search := by
  induction jobs generalizing search with
  | nil => exact ⟨search, .done, .refl holds⟩
  | cons job jobs inductionHypothesis =>
      obtain ⟨endsFirst, endsRest⟩ := List.forall_mem_cons.mp each
      obtain ⟨between, finishes, advances⟩ := endsFirst (.refl holds)
      obtain ⟨result, rest, advancesOn⟩ :=
        inductionHypothesis advances.holds fun next member _ later =>
          endsRest next member (advances.trans later)
      exact ⟨result, finishes.append rest, advances.trans advancesOn⟩

end Ends

section Ends

variable
  (coherent : setting.network.Coherent)
  (acyclic : setting.network.AcyclicAtEnd)

include coherent acyclic

/-- Bounded jobs come to an end, if bounded visits do. -/
theorem ends_of_follow
    (endsFollow :
      ∀ {visit : Visit} {search : Search},
        search.Holds →
          search.store.IsIn visit.configuration.stack →
            IsBounded setting.network origin limit visit search →
              Ends setting endIsFree [.follow visit] search)
    (holds : search.Holds)
    (areIn : ∀ job ∈ jobs, job.IsIn search.store)
    (areBounded : ∀ job ∈ jobs, job.IsBounded setting.network origin limit search) :
    Ends setting endIsFree jobs search := by
  refine .of_each holds fun job member later advances => ?_
  have isIn := (areIn job member).extended advances.extension
  have isBounded := (areBounded job member).advances holds (areIn job member) advances
  obtain ⟨goesOn, leftAreIn⟩ := isIn.perform advances.holds setting endIsFree
  cases job with
  | keep configuration => exact .of_perform advances.holds isIn ⟨_, .done, .refl goesOn.holds⟩
  | follow visit => exact endsFollow advances.holds isIn isBounded
  | goAlong visit =>
      obtain ⟨base, frames, isBehind, outside⟩ := isBounded
      refine .of_perform advances.holds isIn
        (.of_each goesOn.holds fun next isNext last advancesOn => ?_)
      have nextIsIn := leftAreIn next isNext
      simp only [Job.perform, expandWith_true] at goesOn isNext advancesOn nextIsIn
      obtain ⟨other, isOther, rfl⟩ := List.mem_map.mp isNext
      obtain ⟨edge, present, lies⟩ := advances.holds.liesBehind_of_mem_expand isIn isOther
      have isBounded :=
        (isBehind.advances advances.holds isIn goesOn).lies coherent acyclic goesOn.holds outside
          (goesOn.extension.valid isIn) present lies
      exact endsFollow advancesOn.holds (advancesOn.extension.valid nextIsIn)
        (isBounded.advances goesOn.holds nextIsIn advancesOn)

/-- Bounded jobs come to an end. -/
theorem ends_of_isBounded
    (endIsFree : Bool)
    (limit : Nat)
    (holds : search.Holds)
    (areIn : ∀ job ∈ jobs, job.IsIn search.store)
    (areBounded : ∀ job ∈ jobs, job.IsBounded setting.network origin limit search) :
    Ends setting endIsFree jobs search := by
  -- Following a configuration comes down to jobs with a lower bound, and going along its edges to
  -- following others with the same bound.
  induction limit generalizing jobs search with
  | zero =>
      refine ends_of_follow coherent acyclic ?_ holds areIn areBounded
      rintro visit search _ _ ⟨_, _, _, ⟨_, _, high⟩ | ⟨_, _, _, high⟩⟩
      · omega
      · omega
  | succ limit inductionHypothesis =>
      refine ends_of_follow coherent acyclic ?_ holds areIn areBounded
      intro visit search holds isIn isBounded
      have isInJob : (Job.follow visit).IsIn search.store := isIn
      obtain ⟨goesOn, leftAreIn⟩ := isInJob.perform holds setting endIsFree
      refine .of_perform holds isInJob (inductionHypothesis goesOn.holds leftAreIn ?_)
      cases isKnown : search.isKnown visit with
      | true => simp [Job.perform_follow_of_known isKnown]
      | false =>
          obtain ⟨base, frames, isBehind⟩ :=
            isBounded.behind coherent acyclic holds isIn isKnown
          have marked := holds.advances_mark visit
          rw [Job.perform_follow_of_new isKnown, ← store_mark search visit]
          exact fun job member => isBounded_of_mem_jobsAt coherent acyclic marked.holds isBehind
            (marked.extension.valid isIn) member

end Ends

/-- A configuration that begins to be followed is bounded by all stations on the way from it. -/
theorem exists_isBounded_outset
    (network : Network)
    (collects : Bool)
    (origin : Configuration)
    (holds : search.Holds) :
    ∃ limit, IsBounded network origin limit (.outset collects origin) search := by
  refine ⟨_, ⟨origin.stack, [], ?_⟩, (finite_stationsFrom network origin).toFinset, ?_,
    .inr ⟨rfl, 0, ?_, le_rfl⟩⟩
  · exact ⟨rfl, .first, le_rfl, .base, by simp, [], .begins origin.state⟩
  · exact fun station isStation _ => (finite_stationsFrom network origin).mem_toFinset.mpr isStation
  · intro returns isHeld
    exact ⟨⟨origin.state, returns⟩, (holds.wellMade.length_le isHeld).trans (Nat.le_add_right _ _),
      .stay⟩

/--
In a network that was read, where no walk inside a rule invocation comes back to a state with the
same returns without a token, and none enters a rule again that it is still inside with nothing but
the end of the input consumed, following the free edges from any configuration comes to an end.

That is so whatever was followed before and whatever was found, in full context or not, with or
without the end of the input being free and with or without conditions that count, though without
context the end of a rule leads to all its callers and from these may lead back to itself. The jobs
of the work list run out, and following the edges with any limit from some on comes to the same.

Rules are told apart by the states that they start in, which asks for no more than telling them
apart by their numbers.
-/
theorem follow_terminates
    {data : List Int}
    (decoded : Network.decode data = .ok setting.network)
    (acyclic : setting.network.AcyclicAtEnd)
    (holds : search.Holds)
    (isIn : search.store.IsIn origin.stack)
    (endIsFree collects : Bool) :
    ∃ result,
      Finishes true setting endIsFree [.follow (.outset collects origin)] search result ∧
        ∃ enough,
          ∀ limit : Nat,
            enough ≤ limit →
              follow setting endIsFree limit (.outset collects origin) search = result := by
  have coherent := Network.coherent_of_decode decoded
  obtain ⟨limit, isBounded⟩ :=
    exists_isBounded_outset setting.network collects origin holds
  have isInJob : (Job.follow (.outset collects origin)).IsIn search.store := isIn
  obtain ⟨result, finishes, -⟩ :=
    ends_of_isBounded coherent acyclic endIsFree limit holds
      (List.forall_mem_singleton.mpr isInJob)
      (List.forall_mem_singleton.mpr isBounded)
  exact ⟨result, finishes, finishes.exists_limit⟩

end Terminating

namespace RightRecursion

/-- A parser of `s : e EOF*` and `e : 'a' e | 'b'`, where `e` ends at state 3. -/
def encoded : List Int :=
  [4, 1, 2,
    16, 2, 0, 7, 0, 2, 1, 7, 1, 1, 0, 1, 0, 5, 0, 7, 8, 0, 10, 0, 12, 0, 10, 9, 0, 1, 1, 1, 1, 1, 1,
    8, 1, 3, 1, 14,
    0, 0, 2, 0, 2, 0, 0,
    16, 0, 4, 1, 0, 0, 0, 2, 15, 1, 0, 0, 0, 4, 8, 3, 2, 1, 0, 5, 7, 5, 0, 0, 1, 6, 5, 1, 0, 0, 0,
    7, 10, 1, 0, 0, 0, 8, 6, 1, 0, 0, 0, 8, 9, 1, 0, 0, 0, 9, 1, 1, 0, 0, 0, 10, 8, 1, 0, 0, 0,
    11, 12, 5, 1, 0, 0, 12, 14, 3, 2, 1, 0, 13, 14, 5, 2, 0, 0, 14, 3, 1, 0, 0, 0,
    15, 11, 1, 0, 0, 0, 15, 13, 1, 0, 0, 0,
    2, 15, 8]

/-- Predictions in the network of the encoding. -/
def setting : Setting where
  network := (Network.decode encoded).toOption.getD default
  precedenceRule := none
  precedence := 0

/-- How far each state is behind those that tokens lead to. -/
def rank (number : Nat) : Nat :=
  [0, 4, 2, 2, 1, 4, 3, 0, 2, 3, 1, 4, 0, 4, 1, 3].getD number 0

/-- The states of `e` before its first token are on a higher level than all others. -/
def level (number : Nat) : Nat :=
  if number ∈ [2, 11, 13, 15] then 1 else 0

/-- At the end of `e`, without context. -/
def origin : Configuration :=
  Configuration.start 3 1 StackId.empty

/-- Nothing was found and followed yet. -/
def search : Search where
  store := StackStore.initial
  found := ConfigurationSet.empty false
  visited := ∅

/-- The loop over the end of the input is no walk that enters a rule again. -/
theorem acyclicAtEnd : setting.network.AcyclicAtEnd := by
  have climbing :
      (List.range setting.network.states.size).all (setting.network.checkClimbing rank) = true := by
    decide +kernel
  have mounting :
      (List.range setting.network.states.size).all (setting.network.checkMounting level) =
        true := by
    decide +kernel
  have climbs : setting.network.Climbs rank := Network.climbs_of_checkClimbing rank climbing
  have mounts : setting.network.Mounts level := Network.mounts_of_checkMounting level mounting
  exact mounts.acyclicAtEnd climbs.acyclic

/-- The end of `e` leads to its callers, one of which leads back there, and to the loop over the end
of the input; but following from there comes to an end. -/
theorem follow_end_of_rule :
    Network.decode encoded = .ok setting.network ∧ setting.network.AcyclicAtEnd ∧
      search.Holds ∧ search.store.IsIn origin.stack ∧
        ((setting.network.state 3).edges = [.epsilon 8 none, .epsilon 14 none] ∧
          (setting.network.state 14).edges = [.epsilon 3 none]) ∧
          ∃ result,
            Finishes true setting true [.follow (.outset true origin)] search result ∧
              ∃ enough,
                ∀ limit : Nat,
                  enough ≤ limit →
                    follow setting true limit (.outset true origin) search = result := by
  have decoded : Network.decode encoded = .ok setting.network := by decide +kernel
  have returns :
      (setting.network.state 3).edges = [.epsilon 8 none, .epsilon 14 none] ∧
        (setting.network.state 14).edges = [.epsilon 3 none] := by
    decide +kernel
  have holds : search.Holds := ⟨.initial, .empty _ _⟩
  have isIn : search.store.IsIn origin.stack := StackStore.WellMade.initial.empty_valid
  exact ⟨decoded, acyclicAtEnd, holds, isIn, returns,
    follow_terminates decoded acyclicAtEnd holds isIn true true⟩

end RightRecursion

end Prediction

end GrammarService
