import GrammarService.Proofs.Network.Places

namespace GrammarService

/-!
# How long walks without a token can be

In a network without loops a walk without a token comes to no place twice. Inside a rule invocation
it is never in more rules than there are, so there are only so many places that it can come to. A
walk that leaves rule invocations begins anew in each one that it comes back to.
-/

namespace Network

variable {network : Network}

/-- A state that some call leads to. -/
def IsCalled
    (network : Network)
    (start : Nat) :
    Prop :=
  ∃ number rule precedence follow,
    Edge.call start rule precedence follow ∈ (network.state number).edges

/-- The calls of a network lead to so many states at most. -/
def CallsAtMost
    (network : Network)
    (count : Nat) :
    Prop :=
  ∃ starts : List Nat,
    starts.length ≤ count ∧ ∀ start, network.IsCalled start → start ∈ starts

/-- Calls lead to states of the network. -/
theorem callsAtMost_size
    (coherent : network.Coherent) :
    network.CallsAtMost network.states.size := by
  refine ⟨List.range network.states.size, by simp, ?_⟩
  rintro start ⟨number, rule, precedence, follow, present⟩
  obtain ⟨_, isState, _⟩ := coherent.target present
  exact List.mem_range.mpr (Array.getElem?_eq_some_iff.mp isState).1

/-- Where calls lead to the starts of their rules, there are no more of these than rules. -/
theorem callsAtMost_ruleCount
    (shaped : network.RuleShaped)
    (coherent : network.Coherent) :
    network.CallsAtMost network.ruleCount := by
  refine ⟨(List.range network.ruleCount).map network.startOf, by simp, ?_⟩
  rintro start ⟨number, rule, precedence, follow, present⟩
  rw [shaped.callTarget present]
  exact List.mem_map_of_mem (List.mem_range.mpr (coherent.call present).1)

/--
The starts of the rules that were entered and not left on the way to a place, innermost first: each
of them walks to the place, with as many returns as there are rules inside it.
-/
structure Entered
    (network : Network)
    (place : Place)
    (starts : List Nat) :
    Prop where
  distinct : starts.Nodup
  called : ∀ start ∈ starts, network.IsCalled start
  frames : starts.length = place.returns.length
  walked :
    ∀ {depth start : Nat},
      starts[depth]? = some start →
        ∃ steps,
          FreeWalk network steps ⟨start, []⟩ ⟨place.state, place.returns.take depth⟩

namespace Entered

variable {starts : List Nat} {first last : Place}

/-- Along a free edge the rules entered stay the same. -/
theorem edge
    {number : Nat}
    {returns : List Nat}
    {edge : Edge}
    (entered : Entered network ⟨number, returns⟩ starts)
    (inside : (network.state number).kind ≠ .ruleStop)
    (present : edge ∈ (network.state number).edges)
    (free : edge.isFree = true) :
    Entered network ⟨edge.target, returns⟩ starts := by
  refine ⟨entered.distinct, entered.called, entered.frames, ?_⟩
  intro depth start isStart
  obtain ⟨steps, walk⟩ := entered.walked isStart
  exact ⟨steps + 1, walk.snoc (.edge inside present free)⟩

section Call

variable
  {number target rule follow : Nat}
  {precedence : Int}
  {returns : List Nat}
  (acyclic : network.Acyclic)
  (entered : Entered network ⟨number, returns⟩ starts)
  (inside : (network.state number).kind ≠ .ruleStop)
  (present : Edge.call target rule precedence follow ∈ (network.state number).edges)

include acyclic entered inside present

/-- No rule in progress is entered again. -/
theorem not_mem_of_call : target ∉ starts := by
  intro again
  obtain ⟨depth, isTarget⟩ := List.mem_iff_getElem?.mp again
  obtain ⟨steps, walk⟩ := entered.walked isTarget
  exact acyclic.reenters walk inside present

/-- A call enters one more rule. -/
theorem call : Entered network ⟨target, follow :: returns⟩ (target :: starts) := by
  have isNew := entered.not_mem_of_call acyclic inside present
  refine ⟨List.nodup_cons.mpr ⟨isNew, entered.distinct⟩, ?_, ?_, ?_⟩
  · intro start member
    rcases List.mem_cons.mp member with rfl | member
    · exact ⟨number, rule, precedence, follow, present⟩
    · exact entered.called start member
  · simpa using entered.frames
  · intro depth start isStart
    cases depth with
    | zero =>
        simp only [List.getElem?_cons_zero, Option.some.injEq] at isStart
        subst isStart
        exact ⟨0, .stay⟩
    | succ depth =>
        obtain ⟨steps, walk⟩ := entered.walked (by simpa using isStart)
        exact ⟨steps + 1, walk.snoc (.call inside present)⟩

end Call

/-- The end of a rule leaves the innermost one. -/
theorem leave
    {number follow left : Nat}
    {returns : List Nat}
    (entered : Entered network ⟨number, follow :: returns⟩ (left :: starts))
    (stopped : (network.state number).kind = .ruleStop) :
    Entered network ⟨follow, returns⟩ starts := by
  refine ⟨entered.distinct.of_cons, ?_, by simpa using entered.frames, ?_⟩
  · exact fun start member => entered.called start (List.mem_cons_of_mem left member)
  · intro depth start isStart
    have isInner : (left :: starts)[depth + 1]? = some start := by
      simpa using isStart
    obtain ⟨steps, walk⟩ := entered.walked isInner
    exact ⟨steps + 1, walk.snoc (.leave stopped)⟩

/-- Entering and leaving rules keeps track of the rules entered. -/
theorem step
    (acyclic : network.Acyclic)
    (entered : Entered network first starts)
    (step : FreeStep network first last) :
    ∃ after, Entered network last after := by
  cases step with
  | edge inside present free => exact ⟨_, entered.edge inside present free⟩
  | call inside present => exact ⟨_, entered.call acyclic inside present⟩
  | leave stopped =>
      have frames := entered.frames
      cases starts with
      | nil => simp at frames
      | cons left starts => exact ⟨_, entered.leave stopped⟩

/-- A walk keeps track of the rules entered. -/
theorem walk
    (acyclic : network.Acyclic)
    {steps : Nat}
    (entered : Entered network first starts)
    (walk : FreeWalk network steps first last) :
    ∃ after, Entered network last after := by
  induction walk generalizing starts with
  | stay => exact ⟨starts, entered⟩
  | step step _ inductionHypothesis =>
      obtain ⟨between, entered⟩ := entered.step acyclic step
      exact inductionHypothesis entered

/-- There are not more returns than states that calls lead to. -/
theorem length_returns_le
    {count : Nat}
    (callsAtMost : network.CallsAtMost count)
    (entered : Entered network last starts) :
    last.returns.length ≤ count := by
  obtain ⟨targets, few, isTarget⟩ := callsAtMost
  have inTargets : starts ⊆ targets := fun start member => isTarget start (entered.called start member)
  have fewer := (List.subperm_of_subset entered.distinct inTargets).length_le
  rw [← entered.frames]
  exact Nat.le_trans fewer few

end Entered

/-- The states of a place are all states of the network. -/
structure IsInside
    (network : Network)
    (place : Place) :
    Prop where
  state : place.state < network.states.size
  returns : ∀ follow ∈ place.returns, follow < network.states.size

namespace IsPresent

/-- A present state is in its network. -/
theorem lt_size
    {states : Array State}
    {number : Nat}
    (present : IsPresent states number) :
    number < states.size := by
  obtain ⟨_, isState, _⟩ := present
  exact (Array.getElem?_eq_some_iff.mp isState).1

end IsPresent

/-- Steps lead to states of the network. -/
theorem FreeStep.isInside
    (coherent : network.Coherent)
    {first last : Place}
    (step : FreeStep network first last)
    (returns : ∀ follow ∈ first.returns, follow < network.states.size) :
    network.IsInside last := by
  cases step with
  | edge inside present free => exact ⟨(coherent.target present).lt_size, returns⟩
  | call inside present =>
      refine ⟨(coherent.target present).lt_size, ?_⟩
      intro follow member
      rcases List.mem_cons.mp member with rfl | member
      · exact (coherent.call present).2.2.lt_size
      · exact returns follow member
  | leave stopped =>
      refine ⟨returns _ (by simp), ?_⟩
      exact fun follow member => returns follow (by simp [member])

/-- A step from a place without returns begins at a state of the network. -/
theorem FreeStep.isInside_first
    {number : Nat}
    {last : Place}
    (step : FreeStep network ⟨number, []⟩ last) :
    network.IsInside ⟨number, []⟩ := by
  cases step with
  | edge inside present free => exact ⟨lt_size_of_mem_edges present, by simp⟩
  | call inside present => exact ⟨lt_size_of_mem_edges present, by simp⟩

/-- A walk from a place of the network leads to a place of the network. -/
theorem FreeWalk.isInside
    (coherent : network.Coherent)
    {steps : Nat}
    {first last : Place}
    (walk : FreeWalk network steps first last)
    (inside : network.IsInside first) :
    network.IsInside last := by
  induction walk with
  | stay => exact inside
  | step step _ inductionHypothesis =>
      exact inductionHypothesis (step.isInside coherent inside.returns)

/-- A walk comes to as many places as it has steps, and one more. -/
theorem FreeWalk.places
    (acyclic : network.Acyclic)
    {steps : Nat}
    {first last : Place}
    (walk : FreeWalk network steps first last) :
    ∃ places : List Place,
      places.length = steps + 1 ∧ places.Nodup ∧
        ∀ place ∈ places, ∃ before, FreeWalk network before first place := by
  induction walk with
  | @stay place =>
      refine ⟨[place], rfl, List.nodup_singleton place, ?_⟩
      intro other member
      rw [List.mem_singleton.mp member]
      exact ⟨0, .stay⟩
  | @step steps first second last step _ inductionHypothesis =>
      obtain ⟨places, length, distinct, walked⟩ := inductionHypothesis
      refine ⟨first :: places, by simp [length], ?_, ?_⟩
      · refine List.nodup_cons.mpr ⟨?_, distinct⟩
        intro again
        obtain ⟨before, walk⟩ := walked first again
        exact acyclic.not_closed first.returns first.state before (.step step walk)
      · intro place member
        rcases List.mem_cons.mp member with rfl | member
        · exact ⟨0, .stay⟩
        · obtain ⟨before, walk⟩ := walked place member
          exact ⟨before + 1, .step step walk⟩

end Network

namespace Place

/-- The state and the returns of a place, none of them zero. -/
def digits (place : Place) : List Nat :=
  (place.state :: place.returns).map (· + 1)

/-- A place as one number. -/
def code
    (size : Nat)
    (place : Place) :
    Nat :=
  Nat.ofDigits (size + 2) place.digits

variable {network : Network}

theorem digit_lt
    {place : Place}
    (inside : network.IsInside place) :
    ∀ digit ∈ place.digits, digit < network.states.size + 2 := by
  intro digit member
  obtain ⟨number, isNumber, rfl⟩ := List.mem_map.mp member
  have below : number < network.states.size := by
    rcases List.mem_cons.mp isNumber with rfl | isReturn
    · exact inside.state
    · exact inside.returns number isReturn
  omega

/-- Different places have different numbers. -/
theorem code_injective
    {first second : Place}
    (firstInside : network.IsInside first)
    (secondInside : network.IsInside second)
    (same : first.code network.states.size = second.code network.states.size) :
    first = second := by
  have digits_code :
      ∀ {place : Place},
        network.IsInside place →
          Nat.digits (network.states.size + 2) (place.code network.states.size) =
            place.digits := by
    intro place inside
    refine Nat.digits_ofDigits _ (by omega) _ (digit_lt inside) ?_
    intro nonempty
    have last := List.getLast_mem nonempty
    obtain ⟨number, _, isLast⟩ := List.mem_map.mp last
    omega
  have sameDigits := digits_code firstInside
  rw [same, digits_code secondInside] at sameDigits
  have sameNumbers := List.map_injective_iff.mpr (fun _ _ => Nat.succ.inj) sameDigits
  obtain ⟨sameState, sameReturns⟩ := List.cons.inj sameNumbers
  cases first
  cases second
  simp_all

/-- A place with few returns has a small number. -/
theorem code_lt
    {place : Place}
    {depth : Nat}
    (inside : network.IsInside place)
    (few : place.returns.length ≤ depth) :
    place.code network.states.size < (network.states.size + 2) ^ (depth + 1) := by
  have below :=
    Nat.ofDigits_lt_base_pow_length (b := network.states.size + 2) (by omega) (digit_lt inside)
  refine lt_of_lt_of_le below (Nat.pow_le_pow_right (by omega) ?_)
  simpa [digits] using few

end Place

namespace Network

variable {network : Network}

/--
A bound on the walks without a token inside a rule invocation, where calls lead to so many states
at most.
-/
def innerBound
    (network : Network)
    (count : Nat) :
    Nat :=
  (network.states.size + 2) ^ (count + 1)

/-- A power is not above its bound. -/
theorem pow_le_powerBound (base exponent : Nat) : base ^ exponent ≤ powerBound base exponent := by
  have below : base ≤ 2 ^ (Nat.log2 base + 1) := Nat.le_of_lt Nat.lt_log2_self
  rw [powerBound, Nat.one_shiftLeft, pow_mul]
  exact Nat.pow_le_pow_left below _

section Bounds

variable
  (coherent : network.Coherent)
  (acyclic : network.Acyclic)
  {count : Nat}
  (callsAtMost : network.CallsAtMost count)

include coherent acyclic callsAtMost

/-- Inside a rule invocation a walk without a token is bounded. -/
theorem FreeWalk.lt_innerBound
    {steps number : Nat}
    {last : Place}
    (walk : FreeWalk network steps ⟨number, []⟩ last) :
    steps < network.innerBound count := by
  obtain ⟨places, length, distinct, walked⟩ := walk.places acyclic
  have positive : 0 < network.innerBound count := by
    exact Nat.pow_pos (by omega)
  cases walk with
  | stay => exact positive
  | @step steps _ second _ step rest =>
      have inside : ∀ place ∈ places, network.IsInside place := by
        intro place member
        obtain ⟨before, walk⟩ := walked place member
        exact walk.isInside coherent step.isInside_first
      have below :
          ∀ place ∈ places, place.code network.states.size < network.innerBound count := by
        intro place member
        obtain ⟨before, walk⟩ := walked place member
        have atFirst : Entered network ⟨number, []⟩ [] :=
          ⟨List.nodup_nil, by simp, rfl, by simp⟩
        obtain ⟨rules, entered⟩ := atFirst.walk acyclic walk
        exact Place.code_lt (inside place member) (entered.length_returns_le callsAtMost)
      have codesDistinct : (places.map (Place.code network.states.size)).Nodup := by
        refine (List.nodup_map_iff_inj_on distinct).mpr ?_
        intro one oneMember other otherMember same
        exact Place.code_injective (inside one oneMember) (inside other otherMember) same
      have inRange :
          places.map (Place.code network.states.size) ⊆ List.range (network.innerBound count) := by
        intro code member
        obtain ⟨place, isPlace, rfl⟩ := List.mem_map.mp member
        exact List.mem_range.mpr (below place isPlace)
      have few := (List.subperm_of_subset codesDistinct inRange).length_le
      rw [List.length_map, List.length_range, length] at few
      omega

/-- A walk without a token is bounded, for every return that it can take. -/
theorem FreeWalk.lt_bound
    {steps number : Nat}
    {returns : List Nat}
    {last : Place}
    (walk : FreeWalk network steps ⟨number, returns⟩ last) :
    steps < network.innerBound count * (returns.length + 1) := by
  induction returns generalizing number steps with
  | nil => simpa using walk.lt_innerBound coherent acyclic callsAtMost
  | cons follow below inductionHypothesis =>
      have fromBase :
          FreeWalk network steps (Place.above ⟨number, []⟩ (follow :: below)) last :=
        walk
      rcases fromBase.cases_above with
        ⟨behind, inner, _⟩ | ⟨inner, outer, stop, follow', below', isSum, isBase, walkIn, _, rest⟩
      · have short := inner.lt_innerBound coherent acyclic callsAtMost
        refine lt_of_lt_of_le short (Nat.le_mul_of_pos_right _ ?_)
        omega
      · cases isBase
        have innerShort := walkIn.lt_innerBound coherent acyclic callsAtMost
        have outerShort := inductionHypothesis rest
        rw [List.length_cons, Nat.mul_succ]
        omega

end Bounds

end Network

end GrammarService
