import GrammarService.Proofs.Network.FreeWalks

namespace GrammarService

/-!
# Walks over nothing but the end of the input

The end of the input can be consumed again and again. A walk that consumes nothing else may come
back to a state, but where it never enters a rule again while still inside it, the rules that it is
inside are all different. So there are only so many places above where it began.
-/

/-- Whether an edge consumes the end of the input has nothing to do with the vocabulary. -/
theorem Edge.consumes_endOfInput
    (edge : Edge)
    (highest highest' : Int) :
    edge.consumes endOfInput 0 highest = edge.consumes endOfInput 0 highest' := by
  cases edge <;> simp [consumes, endOfInput]

namespace Network

variable {network : Network} {first second last : Place}

/-- A walk leads from one place to another without consuming anything but the end of the input. -/
def ReadsEnds
    (network : Network)
    (first last : Place) :
    Prop :=
  ∃ types : List Int, (∀ type ∈ types, type = endOfInput) ∧ Reads network first types last

namespace ReadsEnds

theorem refl (place : Place) : ReadsEnds network place place :=
  ⟨[], by simp, .stay⟩

theorem trans
    (earlier : ReadsEnds network first second)
    (later : ReadsEnds network second last) :
    ReadsEnds network first last := by
  obtain ⟨types, areEnds, reads⟩ := earlier
  induction reads with
  | stay => exact later
  | free step _ inductionHypothesis =>
      obtain ⟨all, allAreEnds, readsAll⟩ := inductionHypothesis later areEnds
      exact ⟨all, allAreEnds, .free step readsAll⟩
  | @token _ _ _ type types step _ inductionHypothesis =>
      obtain ⟨isEnd, othersAreEnds⟩ := List.forall_mem_cons.mp areEnds
      obtain ⟨all, allAreEnds, readsAll⟩ := inductionHypothesis later othersAreEnds
      exact ⟨type :: all, List.forall_mem_cons.mpr ⟨isEnd, allAreEnds⟩, .token step readsAll⟩

theorem free
    (walk : ReadsEnds network first second)
    (step : FreeStep network second last) :
    ReadsEnds network first last :=
  walk.trans ⟨[], by simp, .free step .stay⟩

theorem ending
    (walk : ReadsEnds network first second)
    (step : TokenStep network endOfInput second last) :
    ReadsEnds network first last :=
  walk.trans ⟨[endOfInput], by simp, .token step .stay⟩

end ReadsEnds

/--
No walk inside a rule invocation comes back to a state with the same returns without a token, and
none enters a rule again, by the state it starts in, while it is still inside it and has consumed
nothing but the end of the input.
-/
structure AcyclicAtEnd (network : Network) : Prop where
  comesBack :
    ∀ {number steps : Nat},
      ¬ FreeWalk network (steps + 1) ⟨number, []⟩ ⟨number, []⟩
  reenters :
    ∀ {start rule follow : Nat} {precedence : Int} {place : Place},
      ReadsEnds network ⟨start, []⟩ place →
        (network.state place.state).kind ≠ .ruleStop →
          Edge.call start rule precedence follow ∉ (network.state place.state).edges

/-- Rules can be told apart by their numbers as well: it is enough that none is entered again by
its number. -/
theorem acyclicAtEnd_of_rules
    (comesBack :
      ∀ {number steps : Nat},
        ¬ FreeWalk network (steps + 1) ⟨number, []⟩ ⟨number, []⟩)
    (reenters :
      ∀ {caller start rule follow target follow' : Nat} {precedence precedence' : Int}
        {place : Place},
        Edge.call start rule precedence follow ∈ (network.state caller).edges →
          ReadsEnds network ⟨start, []⟩ place →
            (network.state place.state).kind ≠ .ruleStop →
              Edge.call target rule precedence' follow' ∉ (network.state place.state).edges) :
    network.AcyclicAtEnd where
  comesBack := comesBack
  reenters walk inside present := reenters present walk inside present

/-- A walk without a token has not consumed anything but the end of the input. -/
theorem FreeWalk.readsEnds
    {steps : Nat}
    (walk : FreeWalk network steps first last) :
    ReadsEnds network first last := by
  induction walk with
  | stay => exact .refl _
  | step step _ inductionHypothesis =>
      exact ((ReadsEnds.refl _).free step).trans inductionHypothesis

/-- Where walks over the end of the input enter no rule again, walks without a token do not. -/
theorem AcyclicAtEnd.acyclic
    (acyclic : network.AcyclicAtEnd) :
    network.Acyclic where
  comesBack := acyclic.comesBack
  reenters walk := acyclic.reenters walk.readsEnds

/--
The starts of the rules that were entered and not left on the way to a place above where the way
began, innermost first: each of them leads to the place over nothing but the end of the input, with
as many returns as there are rules inside it.
-/
structure EnteredAtEnd
    (network : Network)
    (place : Place)
    (starts : List Nat) :
    Prop where
  distinct : starts.Nodup
  called : ∀ start ∈ starts, network.IsCalled start
  frames : starts.length = place.returns.length
  walked :
    ∀ {depth start : Nat},
      starts[depth]? = some start →
        ReadsEnds network ⟨start, []⟩ ⟨place.state, place.returns.take depth⟩

namespace EnteredAtEnd

variable {number : Nat} {returns starts : List Nat}

/-- At the place where a way begins, no rule was entered. -/
theorem begins (number : Nat) : EnteredAtEnd network ⟨number, []⟩ [] where
  distinct := List.nodup_nil
  called := by simp
  frames := rfl
  walked := by simp

/-- An edge that is crossed inside a rule leaves the rules entered as they are. -/
theorem pass
    {target : Nat}
    (entered : EnteredAtEnd network ⟨number, returns⟩ starts)
    (passes :
      ∀ returns : List Nat,
        FreeStep network ⟨number, returns⟩ ⟨target, returns⟩ ∨
          TokenStep network endOfInput ⟨number, returns⟩ ⟨target, returns⟩) :
    EnteredAtEnd network ⟨target, returns⟩ starts where
  distinct := entered.distinct
  called := entered.called
  frames := entered.frames
  walked isStart := by
    rcases passes _ with free | ending
    · exact (entered.walked isStart).free free
    · exact (entered.walked isStart).ending ending

/-- A call inside a rule enters one that was not entered before. -/
theorem call
    {target rule follow : Nat}
    {precedence : Int}
    (acyclic : network.AcyclicAtEnd)
    (entered : EnteredAtEnd network ⟨number, returns⟩ starts)
    (inside : (network.state number).kind ≠ .ruleStop)
    (present : Edge.call target rule precedence follow ∈ (network.state number).edges) :
    EnteredAtEnd network ⟨target, follow :: returns⟩ (target :: starts) where
  distinct := by
    refine List.nodup_cons.mpr ⟨fun again => ?_, entered.distinct⟩
    obtain ⟨depth, isTarget⟩ := List.mem_iff_getElem?.mp again
    exact acyclic.reenters (entered.walked isTarget) inside present
  called := List.forall_mem_cons.mpr ⟨⟨number, rule, precedence, follow, present⟩, entered.called⟩
  frames := by simpa using entered.frames
  walked {depth start} isStart := by
    cases depth with
    | zero =>
        simp only [List.getElem?_cons_zero, Option.some.injEq] at isStart
        subst isStart
        exact .refl _
    | succ depth => exact (entered.walked (by simpa using isStart)).free (.call inside present)

/-- A call from where a way begins enters the only rule. -/
theorem callFirst
    {target rule follow : Nat}
    {precedence : Int}
    (present : Edge.call target rule precedence follow ∈ (network.state number).edges) :
    EnteredAtEnd network ⟨target, [follow]⟩ [target] where
  distinct := List.nodup_singleton target
  called := List.forall_mem_singleton.mpr ⟨number, rule, precedence, follow, present⟩
  frames := rfl
  walked {depth start} isStart := by
    cases depth with
    | zero =>
        simp only [List.getElem?_cons_zero, Option.some.injEq] at isStart
        subst isStart
        exact .refl _
    | succ depth => simp at isStart

/-- The end of a rule leaves the innermost one. -/
theorem leave
    {follow : Nat}
    (entered : EnteredAtEnd network ⟨number, follow :: returns⟩ starts)
    (stopped : (network.state number).kind = .ruleStop) :
    ∃ outer, EnteredAtEnd network ⟨follow, returns⟩ outer := by
  have frames := entered.frames
  cases starts with
  | nil => simp at frames
  | cons left outer =>
      refine ⟨outer, entered.distinct.of_cons,
        fun start member => entered.called start (List.mem_cons_of_mem left member),
        by simpa using frames, fun {depth start} isStart => ?_⟩
      have isInner : (left :: outer)[depth + 1]? = some start := by
        simpa using isStart
      exact (entered.walked isInner).free (.leave stopped)

/-- There are not more returns than states that calls lead to. -/
theorem length_returns_le
    {count : Nat}
    {place : Place}
    (entered : EnteredAtEnd network place starts)
    (callsAtMost : network.CallsAtMost count) :
    place.returns.length ≤ count := by
  obtain ⟨targets, few, isTarget⟩ := callsAtMost
  have inTargets : starts ⊆ targets :=
    fun start member => isTarget start (entered.called start member)
  have fewer := (List.subperm_of_subset entered.distinct inTargets).length_le
  rw [← entered.frames]
  exact fewer.trans few

end EnteredAtEnd

/-- There are finitely many places of the network with so many returns. -/
theorem finite_places
    (network : Network)
    (count : Nat) :
    {place : Place | network.IsInside place ∧ place.returns.length ≤ count}.Finite := by
  refine Set.Finite.of_injOn (f := Place.code network.states.size)
    (t := Set.Iio (network.innerBound count)) ?_ ?_ (Set.finite_Iio _)
  · rintro place ⟨inside, few⟩
    exact Place.code_lt inside few
  · rintro place ⟨inside, _⟩ other ⟨otherInside, _⟩ same
    exact Place.code_injective inside otherInside same

/-- A step over nothing but the end of the input leads to a level that is as high at least, and one
into a rule to a higher one. -/
def Mounts
    (network : Network)
    (level : Nat → Nat) :
    Prop :=
  ∀ {number : Nat} {edge : Edge},
    (network.state number).kind ≠ .ruleStop →
      edge ∈ (network.state number).edges →
        edge.isEpsilon = true ∨ edge.consumes endOfInput 0 network.maxTokenType = true →
          level number ≤ level edge.target ∧ level number ≤ level edge.next ∧
            (edge.isCall = true → level number < level edge.target)

/-- Whether the steps from a state that consume nothing but the end of the input do not go down. -/
def checkMounting
    (network : Network)
    (level : Nat → Nat)
    (number : Nat) :
    Bool :=
  let state := network.state number
  decide (state.kind = .ruleStop) ||
    state.edges.all fun edge =>
      !(edge.isEpsilon || edge.consumes endOfInput 0 network.maxTokenType) ||
        (level number ≤ level edge.target && level number ≤ level edge.next &&
          (!edge.isCall || level number < level edge.target))

/-- The check of levels can be trusted. -/
theorem mounts_of_checkMounting
    (level : Nat → Nat)
    (checked : (List.range network.states.size).all (network.checkMounting level) = true) :
    network.Mounts level := by
  intro number edge inside member crossed
  have checkedHere :=
    List.all_eq_true.mp checked number (List.mem_range.mpr (lt_size_of_mem_edges member))
  simp only [checkMounting, inside, decide_false, Bool.false_or, List.all_eq_true] at checkedHere
  have isCrossed : (edge.isEpsilon || edge.consumes endOfInput 0 network.maxTokenType) = true := by
    simpa using crossed
  have mounts := checkedHere edge member
  simp only [isCrossed, Bool.not_true, Bool.false_or, Bool.and_eq_true, decide_eq_true_eq,
    Bool.or_eq_true, Bool.not_eq_true'] at mounts
  refine ⟨mounts.1.1, mounts.1.2, fun isCall => mounts.2.resolve_left ?_⟩
  simp [isCall]

/-- A walk over nothing but the end of the input stays on the levels above a bound. -/
theorem Mounts.le_of_readsEnds
    {level : Nat → Nat}
    (mounts : network.Mounts level)
    (bound : Nat)
    (walk : ReadsEnds network first last)
    (above : ∀ other ∈ first.state :: first.returns, bound ≤ level other) :
    ∀ other ∈ last.state :: last.returns, bound ≤ level other := by
  obtain ⟨types, areEnds, reads⟩ := walk
  induction reads with
  | stay => exact above
  | free step _ inductionHypothesis =>
      refine inductionHypothesis ?_ areEnds
      cases step with
      | edge inside present free =>
          obtain ⟨further, -, -⟩ := mounts inside present (.inl (Edge.isEpsilon_of_isFree free))
          intro other member
          rcases List.mem_cons.mp member with rfl | isReturn
          · exact (above _ List.mem_cons_self).trans further
          · exact above other (List.mem_cons_of_mem _ isReturn)
      | call inside present =>
          obtain ⟨further, follow, -⟩ := mounts inside present (.inl rfl)
          have here := above _ List.mem_cons_self
          intro other member
          rcases List.mem_cons.mp member with rfl | member
          · exact here.trans further
          · rcases List.mem_cons.mp member with rfl | isReturn
            · exact here.trans follow
            · exact above other (List.mem_cons_of_mem _ isReturn)
      | leave stopped => exact fun other member => above other (List.mem_cons_of_mem _ member)
  | token step _ inductionHypothesis =>
      obtain ⟨rfl, othersAreEnds⟩ := List.forall_mem_cons.mp areEnds
      refine inductionHypothesis ?_ othersAreEnds
      cases step with
      | edge inside present consumes =>
          obtain ⟨further, -, -⟩ := mounts inside present (.inr consumes)
          intro other member
          rcases List.mem_cons.mp member with rfl | isReturn
          · exact (above _ List.mem_cons_self).trans further
          · exact above other (List.mem_cons_of_mem _ isReturn)

/-- Where walks over the end of the input go into rules upwards only, none enters a rule again. -/
theorem Mounts.acyclicAtEnd
    {level : Nat → Nat}
    (mounts : network.Mounts level)
    (acyclic : network.Acyclic) :
    network.AcyclicAtEnd where
  comesBack := acyclic.comesBack
  reenters {start rule follow precedence place} walk inside present := by
    have above :=
      mounts.le_of_readsEnds (level start) walk (by simp) place.state
        List.mem_cons_self
    obtain ⟨-, -, higher⟩ := mounts inside present (.inl rfl)
    exact absurd (higher rfl) (Nat.not_lt.mpr above)

end Network

end GrammarService
