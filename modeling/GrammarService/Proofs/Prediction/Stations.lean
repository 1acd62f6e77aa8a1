import GrammarService.Proofs.Network.EndWalks
import GrammarService.Proofs.Prediction.Advancing
import GrammarService.Proofs.Prediction.Striding

namespace GrammarService

/-!
# The stations of following free edges

On the way from a configuration, stacks are those below its own with returns pushed on top. Where no
walk over nothing but the end of the input enters a rule again, only so many returns are ever pushed
there, and pushing the same returns gives the same stack. So there are finitely many stations: what
tells the configurations on the way apart, with a stack given by what was pushed on which base.
-/

namespace Prediction

variable
  {network : Network}
  {endIsFree : Bool}
  {origin configuration : Configuration}
  {visit next : Visit}
  {edge : Edge}
  {store after : StackStore}
  {base stack below : StackId}
  {frames : List Nat}

/-- A stack is what pushing some returns on another one gives, the last of them first. -/
inductive Piled
    (store : StackStore)
    (base : StackId) :
    List Nat → StackId → Prop where
  | base : Piled store base [] base
  | frame
      {frame : Nat}
      {frames : List Nat}
      {below stack : StackId}
      (isPushed : store.interned[[(⟨some frame, below⟩ : StackEntry)]]? = some stack)
      (rest : Piled store base frames below) :
      Piled store base (frame :: frames) stack

namespace Piled

theorem extended
    (piled : Piled store base frames stack)
    (extension : store.Extends after) :
    Piled after base frames stack := by
  induction piled with
  | base => exact .base
  | frame isPushed _ inductionHypothesis =>
      exact .frame (extension.interned isPushed) inductionHypothesis

/-- Pushing the same returns on the same stack gives the same stack. -/
theorem unique
    {other : StackId}
    (piled : Piled store base frames stack)
    (alsoPiled : Piled store base frames other) :
    stack = other := by
  induction piled generalizing other with
  | base =>
      cases alsoPiled
      rfl
  | frame isPushed _ inductionHypothesis =>
      cases alsoPiled with
      | frame alsoPushed rest =>
          obtain rfl := inductionHypothesis rest
          rw [isPushed, Option.some.injEq] at alsoPushed
          exact alsoPushed

theorem standsOn
    (wellMade : store.WellMade)
    (piled : Piled store base frames stack) :
    StandsOn store base frames stack := by
  induction piled with
  | base => exact .base
  | frame isPushed _ inductionHypothesis =>
      exact .frame (wellMade.interned isPushed) inductionHypothesis

/-- What a stack returns along is what was pushed, and then what its base returns along. -/
theorem length_le
    {returns : List Nat}
    (wellMade : store.WellMade)
    (piled : Piled store base frames stack)
    (holds : store.Holds false stack returns) :
    returns.length ≤ base + frames.length := by
  induction piled generalizing returns with
  | base => exact wellMade.length_le holds
  | frame isPushed _ inductionHypothesis =>
      obtain ⟨rest, rfl, isBelow⟩ :=
        wellMade.exists_holds_of_single (wellMade.interned isPushed) holds
      have few := inductionHypothesis isBelow
      simp only [List.length_cons]
      omega

end Piled

/-- What tells apart the configurations of an alternative that are on the way from another one. -/
structure Station where
  /-- The stack that returns were pushed on. -/
  base : StackId
  /-- The state, with the returns that were pushed. -/
  place : Place
  condition : Condition
  suppressed : Bool
  deriving DecidableEq

namespace Station

/-- The key of a configuration at a station. -/
def key
    (station : Station)
    (alternative : Nat)
    (stack : StackId) :
    Configuration.Key where
  state := station.place.state
  alternative := alternative
  stack := stack
  condition := station.condition
  filterSuppressed := station.suppressed

/-- The station of a configuration whose stack has some returns pushed on a base. -/
def ofConfiguration
    (configuration : Configuration)
    (base : StackId)
    (frames : List Nat) :
    Station where
  base := base
  place := ⟨configuration.state, frames⟩
  condition := configuration.condition
  suppressed := configuration.filterSuppressed

end Station

/-- The stations that are on the way from a configuration. -/
def stationsFrom
    (network : Network)
    (origin : Configuration) :
    Set Station :=
  {station |
    station.base ≤ origin.stack ∧
      (network.IsInside station.place ∧ station.place.returns.length ≤ network.states.size) ∧
        origin.condition.NotedFrom network station.condition}

/-- There are finitely many stations on the way from a configuration. -/
theorem finite_stationsFrom
    (network : Network)
    (origin : Configuration) :
    (stationsFrom network origin).Finite := by
  have finite :=
    (Set.finite_Iic origin.stack).prod
      ((network.finite_places network.states.size).prod
        ((Condition.finite_notedFrom network origin.condition).prod
          (Set.finite_univ (α := Bool))))
  refine Set.Finite.of_injOn
    (f := fun station : Station =>
      (station.base, station.place, station.condition, station.suppressed)) ?_ ?_ finite
  · rintro station ⟨low, isPlace, noted⟩
    exact ⟨low, isPlace, noted, trivial⟩
  · rintro ⟨base, place, condition, suppressed⟩ _ ⟨base', place', condition', suppressed'⟩ _ same
    simpa using same

/-- A configuration on the way from another one, with the returns that were pushed. -/
structure IsOnWay
    (network : Network)
    (origin : Configuration)
    (store : StackStore)
    (configuration : Configuration)
    (base : StackId)
    (frames : List Nat) :
    Prop where
  alternative : configuration.alternative = origin.alternative
  noted : origin.condition.NotedFrom network configuration.condition
  low : base ≤ origin.stack
  piled : Piled store base frames configuration.stack
  inside : ∀ frame ∈ frames, frame < network.states.size
  entered : ∃ starts, network.EnteredAtEnd ⟨configuration.state, frames⟩ starts

namespace IsOnWay

theorem extended
    (onWay : IsOnWay network origin store configuration base frames)
    (extension : store.Extends after) :
    IsOnWay network origin after configuration base frames :=
  { onWay with piled := onWay.piled.extended extension }

/-- At the end of a rule the way goes on behind the call that is returned to. -/
theorem return_
    {entry : StackEntry}
    {follow : Nat}
    (onWay : IsOnWay network origin store configuration base frames)
    (wellMade : store.WellMade)
    (stopped : (network.state configuration.state).kind = .ruleStop)
    (present : entry ∈ store.entries configuration.stack)
    (isReturn : entry.returnState = some follow) :
    ∃ base frames,
      IsOnWay network origin store
        { configuration with
          state := follow
          stack := entry.below
          filterSuppressed := false }
        base frames := by
  obtain ⟨alternative, noted, low, piled, inside, starts, entered⟩ := onWay
  generalize isStack : configuration.stack = stack at piled present
  cases piled with
  | base =>
      exact ⟨entry.below, [], alternative, noted, (le_of_lt (wellMade.below present)).trans low,
        .base, by simp, [], .begins follow⟩
  | @frame frame frames below _ isPushed rest =>
      rw [StackStore.entries_of_getElem? (wellMade.interned isPushed), List.mem_singleton]
        at present
      subst present
      obtain rfl : frame = follow := by simpa using isReturn
      exact ⟨base, frames, alternative, noted, low, rest,
        fun other member => inside other (List.mem_cons_of_mem _ member), entered.leave stopped⟩

/-- Where a way need not return, nothing was pushed. -/
theorem frames_eq_nil
    {entry : StackEntry}
    (onWay : IsOnWay network origin store configuration base frames)
    (wellMade : store.WellMade)
    (present : entry ∈ store.entries configuration.stack)
    (isBottom : entry.returnState = none) :
    frames = [] := by
  obtain ⟨returnState, below⟩ := entry
  cases isBottom
  exact ((onWay.piled.standsOn wellMade).base_of_bottom present).1

/-- An edge leads on the way, pushing a return where it enters a rule. -/
theorem behind
    (onWay : IsOnWay network origin store visit.configuration base frames)
    (acyclic : network.AcyclicAtEnd)
    (coherent : network.Coherent)
    (outside :
      (network.state visit.configuration.state).kind = .ruleStop → frames = [])
    (present : edge ∈ (network.state visit.configuration.state).edges)
    (lies :
      LiesBehind endIsFree store visit (network.state visit.configuration.state) edge next) :
    ∃ frames, IsOnWay network origin store next.configuration base frames := by
  obtain ⟨alternative, noted, low, piled, inside, starts, entered⟩ := onWay
  have sameAlternative := lies.sameAlternative.trans alternative
  have stillNoted : origin.condition.NotedFrom network next.configuration.condition := by
    rcases lies.notes with same | ⟨guard, isGuard, isBoth⟩
    · exact same ▸ noted
    · exact isBoth ▸ noted.both ⟨_, edge, present, isGuard⟩
  have isTarget := lies.isTarget
  have pushes := lies.pushes
  generalize isStack : next.configuration.stack = stack at pushes
  cases pushes with
  | pass passes =>
      refine ⟨frames, sameAlternative, stillNoted, low, isStack ▸ piled, inside, ?_⟩
      rw [isTarget]
      by_cases stopped : (network.state visit.configuration.state).kind = .ruleStop
      · obtain rfl := outside stopped
        exact ⟨[], .begins _⟩
      · refine ⟨starts, entered.pass fun returns => ?_⟩
        rw [Edge.isPassed, Bool.or_eq_true, Bool.and_eq_true] at passes
        refine passes.imp (fun free => .edge stopped present free) fun ending => ?_
        exact .edge stopped present (edge.consumes_endOfInput 1 _ ▸ ending.2)
  | @call target rule follow precedence _ isPushed =>
      have isReturn := (coherent.call present).2.2.lt_size
      refine ⟨follow :: frames, sameAlternative, stillNoted, low, isStack ▸ .frame isPushed piled,
        List.forall_mem_cons.mpr ⟨isReturn, inside⟩, ?_⟩
      rw [isTarget]
      by_cases stopped : (network.state visit.configuration.state).kind = .ruleStop
      · obtain rfl := outside stopped
        exact ⟨[target], .callFirst present⟩
      · exact ⟨target :: starts, entered.call acyclic stopped present⟩

/-- Where a way goes on from a state of the network, it is at one of its stations. -/
theorem mem_stationsFrom
    (onWay : IsOnWay network origin store configuration base frames)
    (coherent : network.Coherent)
    (inBounds : configuration.state < network.states.size) :
    Station.ofConfiguration configuration base frames ∈ stationsFrom network origin := by
  obtain ⟨starts, entered⟩ := onWay.entered
  exact ⟨onWay.low,
    ⟨⟨inBounds, onWay.inside⟩, entered.length_returns_le (Network.callsAtMost_size coherent)⟩,
    onWay.noted⟩

/-- On the way there are not more returns than nodes below the first stack and states. -/
theorem length_le
    {returns : List Nat}
    (onWay : IsOnWay network origin store configuration base frames)
    (coherent : network.Coherent)
    (wellMade : store.WellMade)
    (holds : store.Holds false configuration.stack returns) :
    returns.length ≤ origin.stack + network.states.size := by
  obtain ⟨starts, entered⟩ := onWay.entered
  have few := entered.length_returns_le (Network.callsAtMost_size coherent)
  exact (onWay.piled.length_le wellMade holds).trans (Nat.add_le_add onWay.low few)

end IsOnWay

end Prediction

end GrammarService
