import GrammarService.Lexer.Match
import GrammarService.Proofs.Network.FreeWalks

namespace GrammarService

/-!
# Following free edges

Closing a thread visits every thread that free steps lead to, as long as no path is longer than
it may be. A thread that was visited is settled in the end: if it rests it is kept, and all threads
one step further were visited too. So every place that is reached without a character, and where a
walk can rest, has a thread that is kept.
-/

/-- Edges that consume something are not free. -/
theorem Edge.not_isEpsilon_of_consumes
    {edge : Edge}
    {symbol low high : Int}
    (consumes : edge.consumes symbol low high = true) :
    edge.isEpsilon = false := by
  cases edge <;> first | rfl | cases consumes

namespace Network

/-- A lexer network without decisions about greed, where an edge never competes with another. -/
structure MunchesGreedily (network : Network) : Prop where
  greedy : ∀ number, (network.state number).nonGreedy = false
  /-- Rule stops lead to where their rules are called from, by free edges. -/
  stopEdges :
    ∀ {number : Nat} {edge : Edge},
      (network.state number).kind = .ruleStop →
        edge ∈ (network.state number).edges →
          edge.isEpsilon = true
  oneConsumes :
    ∀ number,
      ((network.state number).edges.filter fun edge => !edge.isEpsilon).length ≤ 1
  noPrecedence :
    ∀ {number target : Nat} {precedence : Int},
      Edge.precedence target precedence ∉ (network.state number).edges
  notAtEnd :
    ∀ {number : Nat} {edge : Edge},
      edge ∈ (network.state number).edges →
        edge.consumes endOfInput 0 maxCharacter = false
  acyclic : network.Acyclic

/-- A walk can rest at a place where a token may be finished or a character may be needed. -/
def CanRest
    (network : Network)
    (place : Place) :
    Prop :=
  if (network.state place.state).kind = .ruleStop then
    place.returns = []
  else
    (network.state place.state).epsilonOnly = false

end Network

namespace Lexer

variable {network : Network}

/-- Where a thread is. -/
def Thread.place (thread : Thread) : Place :=
  ⟨thread.state, thread.returns⟩

namespace ThreadSet

/-- All threads that a set knows are kept in it. -/
def KeepsKnown (set : ThreadSet) : Prop :=
  ∀ thread, set.known.contains thread = true → thread ∈ set.threads

theorem keepsKnown_empty : empty.KeepsKnown := by
  intro thread known
  simp [empty] at known

variable {set : ThreadSet} (keepsKnown : set.KeepsKnown) (thread : Thread)

include keepsKnown

/-- Inserting a thread keeps it behind the others, if it was not kept before. -/
theorem insert_spec :
    (set.insert thread).KeepsKnown ∧ thread ∈ (set.insert thread).threads ∧
      ((set.insert thread).threads = set.threads ∨
        (set.insert thread).threads = set.threads.push thread) := by
  unfold insert
  split
  · rename_i known
    exact ⟨keepsKnown, keepsKnown thread known, .inl rfl⟩
  · refine ⟨?_, Array.mem_push_self, .inr rfl⟩
    intro other known
    rw [Std.HashSet.contains_insert, Bool.or_eq_true, beq_iff_eq] at known
    rcases known with rfl | known
    · exact Array.mem_push_self
    · exact Array.mem_push_of_mem _ (keepsKnown other known)

end ThreadSet

/-- One step of a thread without a character. -/
inductive Thread.Next (network : Network) (thread : Thread) : Thread → Prop where
  | edge
      {edge : Edge}
      {next : Thread}
      (inside : (network.state thread.state).kind ≠ .ruleStop)
      (present : edge ∈ (network.state thread.state).edges)
      (free : thread.free? network false edge = some next) :
      Next network thread next
  | leave
      {follow : Nat}
      {outer : List Nat}
      (stopped : (network.state thread.state).kind = .ruleStop)
      (isReturn : thread.returns = follow :: outer) :
      Next network thread { thread with state := follow, returns := outer }

section Greedy

variable (munches : network.MunchesGreedily)

include munches

/-- No state makes a thread weaker. -/
theorem Thread.passedNonGreedy_moveTo
    (thread : Thread)
    (target : Nat) :
    (thread.moveTo network target).passedNonGreedy = thread.passedNonGreedy := by
  simp [moveTo, munches.greedy]

/-- What crossing a free edge does to a thread. -/
theorem Thread.freeStep_of_free?
    {thread next : Thread}
    {edge : Edge}
    (inside : (network.state thread.state).kind ≠ .ruleStop)
    (present : edge ∈ (network.state thread.state).edges)
    (free : thread.free? network false edge = some next) :
    network.FreeStep thread.place next.place ∧ next.alternative = thread.alternative ∧
      next.passedNonGreedy = thread.passedNonGreedy := by
  cases edge with
  | call target rule precedence follow =>
      cases free
      exact ⟨.call inside present, rfl, thread.passedNonGreedy_moveTo munches target⟩
  | epsilon target outermost =>
      cases free
      exact ⟨.edge inside present rfl, rfl, thread.passedNonGreedy_moveTo munches target⟩
  | predicate target rule index dependent =>
      cases free
      exact ⟨.edge inside present rfl, rfl, thread.passedNonGreedy_moveTo munches target⟩
  | action target rule index dependent =>
      have step : network.FreeStep thread.place ⟨target, thread.returns⟩ :=
        .edge inside present rfl
      cases free
      have weaker := thread.passedNonGreedy_moveTo munches target
      unfold passAction
      dsimp only
      split
      · exact ⟨step, rfl, weaker⟩
      · exact ⟨step, rfl, weaker⟩
  | _ => cases free

/-- A step of a thread is one between places; the rule and its greed stay the same. -/
theorem Thread.Next.freeStep
    {thread next : Thread}
    (step : thread.Next network next) :
    network.FreeStep thread.place next.place ∧ next.alternative = thread.alternative ∧
      next.passedNonGreedy = thread.passedNonGreedy := by
  cases step with
  | edge inside present free => exact freeStep_of_free? munches inside present free
  | leave stopped isReturn =>
      refine ⟨?_, rfl, rfl⟩
      rw [place, isReturn]
      exact .leave stopped

/-- Threads can take every step between places. -/
theorem Thread.exists_next
    {thread : Thread}
    {place : Place}
    (step : network.FreeStep thread.place place) :
    ∃ next, thread.Next network next ∧ next.place = place := by
  generalize isPlace : thread.place = first at step
  cases step with
  | @edge number returns edge inside present free =>
      cases isPlace
      cases edge with
      | epsilon target outermost =>
          exact ⟨_, .edge inside present rfl, rfl⟩
      | predicate target rule index dependent =>
          exact ⟨_, .edge inside present rfl, rfl⟩
      | action target rule index dependent =>
          refine ⟨_, .edge inside present rfl, ?_⟩
          unfold passAction
          dsimp only
          split <;> rfl
      | precedence target precedence => exact absurd present munches.noPrecedence
      | _ => cases free
  | call inside present =>
      cases isPlace
      exact ⟨_, .edge inside present rfl, rfl⟩
  | @leave number follow returns stopped =>
      simp only [place, Place.mk.injEq] at isPlace
      obtain ⟨rfl, isReturn⟩ := isPlace
      exact ⟨_, .leave stopped isReturn, rfl⟩

end Greedy

/-! ## Settled threads -/

/-- A visited thread with nothing left to do: it is kept if it rests, and it was followed. -/
structure Settled
    (network : Network)
    (closing : Closing)
    (thread : Thread) :
    Prop where
  kept : network.CanRest thread.place → thread ∈ closing.kept.threads
  followed : ∀ next, thread.Next network next → closing.visited.contains next = true

/--
What following free edges from a thread may do: it keeps threads that were come to from there and
can rest, and in the end all visited threads are settled but those that are still in progress.
-/
structure Explores
    (network : Network)
    (root : Thread)
    (before after : Closing) :
    Prop where
  keepsKnown : before.kept.KeepsKnown → after.kept.KeepsKnown
  visited : ∀ other, before.visited.contains other = true → after.visited.contains other = true
  keeps :
    ∃ added,
      after.kept.threads.toList = before.kept.threads.toList ++ added ∧
        ∀ other ∈ added,
          other.alternative = root.alternative ∧ other.passedNonGreedy = false ∧
            network.CanRest other.place ∧
            ∃ steps, network.FreeWalk steps root.place other.place
  settles :
    ∀ inProgress : Thread → Prop,
      (∀ other, before.visited.contains other = true →
        inProgress other ∨ Settled network before other) →
      ∀ other, after.visited.contains other = true →
        inProgress other ∨ Settled network after other

namespace Explores

variable {root thread : Thread} {before between after : Closing}

theorem refl : Explores network root before before where
  keepsKnown := id
  visited := fun _ => id
  keeps := ⟨[], by simp, by simp⟩
  settles := fun _ => id

theorem trans
    (first : Explores network root before between)
    (second : Explores network root between after) :
    Explores network root before after where
  keepsKnown := second.keepsKnown ∘ first.keepsKnown
  visited := fun other isVisited => second.visited other (first.visited other isVisited)
  keeps := by
    obtain ⟨added, isSum, fromRoot⟩ := first.keeps
    obtain ⟨more, isSum', fromRoot'⟩ := second.keeps
    refine ⟨added ++ more, by rw [isSum', isSum, List.append_assoc], ?_⟩
    intro other member
    rcases List.mem_append.mp member with isFirst | isSecond
    · exact fromRoot other isFirst
    · exact fromRoot' other isSecond
  settles := fun inProgress settled => second.settles inProgress (first.settles inProgress settled)

/-- What is kept stays kept. -/
theorem kept
    (explores : Explores network root before after)
    {other : Thread}
    (isKept : other ∈ before.kept.threads) :
    other ∈ after.kept.threads := by
  obtain ⟨added, isSum, _⟩ := explores.keeps
  rw [← Array.mem_toList_iff, isSum]
  exact List.mem_append_left added (Array.mem_toList_iff.mpr isKept)

/-- What was settled stays settled. -/
theorem settled
    (explores : Explores network root before after)
    {other : Thread}
    (settled : Settled network before other) :
    Settled network after other where
  kept := fun canRest => explores.kept (settled.kept canRest)
  followed := fun next step => explores.visited next (settled.followed next step)

/-- What a next thread finds, the thread before it finds. -/
theorem behind
    (munches : network.MunchesGreedily)
    {next : Thread}
    (step : thread.Next network next)
    (explores : Explores network next before after) :
    Explores network thread before after := by
  obtain ⟨freeStep, alternative, _⟩ := step.freeStep munches
  refine { explores with keeps := ?_ }
  obtain ⟨added, isSum, fromNext⟩ := explores.keeps
  refine ⟨added, isSum, ?_⟩
  intro other member
  obtain ⟨sameAlternative, greedy, canRest, steps, walk⟩ := fromNext other member
  exact ⟨sameAlternative.trans alternative, greedy, canRest, steps + 1, .step freeStep walk⟩

/-- A thread that is settled in the end need not be in progress. -/
theorem settle
    {marked : Closing}
    (explores : Explores network thread marked after)
    (marks : marked.visited = before.visited.insert thread)
    (keepsKnown : before.kept.KeepsKnown → marked.kept.KeepsKnown)
    (keeps :
      marked.kept.threads = before.kept.threads ∨
        marked.kept.threads = before.kept.threads.push thread ∧
          thread.passedNonGreedy = false ∧ network.CanRest thread.place)
    (settled : Settled network after thread) :
    Explores network thread before after where
  keepsKnown := explores.keepsKnown ∘ keepsKnown
  visited := by
    intro other isVisited
    refine explores.visited other ?_
    simp [marks, isVisited]
  keeps := by
    obtain ⟨added, isSum, fromThread⟩ := explores.keeps
    rcases keeps with same | ⟨pushed, greedy, canRest⟩
    · exact ⟨added, by rw [isSum, same], fromThread⟩
    · refine ⟨thread :: added, by simp [isSum, pushed], ?_⟩
      intro other member
      rcases List.mem_cons.mp member with rfl | isAdded
      · exact ⟨rfl, greedy, canRest, 0, .stay⟩
      · exact fromThread other isAdded
  settles := by
    intro inProgress settledBefore other isVisited
    have inMarked :
        ∀ other, marked.visited.contains other = true →
          (inProgress other ∨ other = thread) ∨ Settled network marked other := by
      intro other isMarked
      rw [marks, Std.HashSet.contains_insert, Bool.or_eq_true, beq_iff_eq] at isMarked
      rcases isMarked with rfl | wasVisited
      · exact .inl (.inr rfl)
      · rcases settledBefore other wasVisited with progresses | settledOther
        · exact .inl (.inl progresses)
        · refine .inr ⟨fun canRest => ?_, fun next step => ?_⟩
          · have isKept := settledOther.kept canRest
            rcases keeps with same | ⟨pushed, _⟩
            · rwa [same]
            · rw [pushed]
              exact Array.mem_push_of_mem _ isKept
          · simp [marks, settledOther.followed next step]
    rcases explores.settles _ inMarked other isVisited with (progresses | rfl) | settledOther
    · exact .inl progresses
    · exact .inr settled
    · exact .inr settledOther

end Explores

/-! ## Closing -/

section Greedy

variable (munches : network.MunchesGreedily)

include munches

/-- Following the edges of a thread in turn visits what each of them leads to. -/
theorem explores_edges
    {thread : Thread}
    (inside : (network.state thread.state).kind ≠ .ruleStop)
    {follow : Thread → Closing → Closing}
    (explores :
      ∀ (next : Thread) (closing : Closing),
        thread.Next network next →
          closing.kept.KeepsKnown →
            Explores network next closing (follow next closing) ∧
              (follow next closing).visited.contains next = true)
    {edges : List Edge}
    (present : ∀ edge ∈ edges, edge ∈ (network.state thread.state).edges)
    {closing : Closing}
    (keepsKnown : closing.kept.KeepsKnown) :
    let after :=
      edges.foldl
        (fun closing edge =>
          match thread.free? network false edge with
          | some next => follow next closing
          | none => closing)
        closing
    Explores network thread closing after ∧
      ∀ edge ∈ edges, ∀ next,
        thread.free? network false edge = some next → after.visited.contains next = true := by
  induction edges generalizing closing with
  | nil => exact ⟨.refl, by simp⟩
  | cons edge rest inductionHypothesis =>
      have presentRest : ∀ edge ∈ rest, edge ∈ (network.state thread.state).edges :=
        fun other member => present other (List.mem_cons_of_mem edge member)
      simp only [List.foldl_cons]
      cases free : thread.free? network false edge with
      | none =>
          obtain ⟨later, visits⟩ := inductionHypothesis presentRest keepsKnown
          refine ⟨later, ?_⟩
          intro other member next isFree
          rcases List.mem_cons.mp member with rfl | isRest
          · rw [free] at isFree
            cases isFree
          · exact visits other isRest next isFree
      | some next =>
          have step : thread.Next network next :=
            .edge inside (present edge List.mem_cons_self) free
          obtain ⟨first, visitsNext⟩ := explores next closing step keepsKnown
          obtain ⟨later, visits⟩ :=
            inductionHypothesis presentRest (first.keepsKnown keepsKnown)
          refine ⟨(first.behind munches step).trans later, ?_⟩
          intro other member next' isFree
          rcases List.mem_cons.mp member with rfl | isRest
          · rw [free] at isFree
            cases isFree
            exact later.visited next visitsNext
          · exact visits other isRest next' isFree

/-- Closing a thread with enough depth for each walk from it settles what it visits. -/
theorem explores_close
    {depth : Nat}
    {thread : Thread}
    (closing : Closing)
    (greedy : thread.passedNonGreedy = false)
    (enough :
      ∀ {steps : Nat} {place : Place},
        network.FreeWalk steps thread.place place → steps < depth)
    (keepsKnown : closing.kept.KeepsKnown) :
    Explores network thread closing (close network false depth thread closing) ∧
      (close network false depth thread closing).visited.contains thread = true := by
  induction depth generalizing thread closing with
  | zero => exact absurd (enough .stay) (Nat.lt_irrefl 0)
  | succ depth inductionHypothesis =>
      have following :
          ∀ (next : Thread) (closing : Closing),
            thread.Next network next →
              closing.kept.KeepsKnown →
                Explores network next closing (close network false depth next closing) ∧
                  (close network false depth next closing).visited.contains next = true := by
        intro next closing step keepsKnown
        obtain ⟨freeStep, _, same⟩ := step.freeStep munches
        refine inductionHypothesis closing (same.trans greedy) ?_ keepsKnown
        intro steps place walk
        exact Nat.lt_of_succ_lt_succ (enough (.step freeStep walk))
      unfold close
      split
      · rename_i isVisited
        exact ⟨.refl, isVisited⟩
      · dsimp only
        split
        · rename_i stopped
          split
          · rename_i noReturns
            have canRest : network.CanRest thread.place := by
              simp [Network.CanRest, Thread.place, stopped, noReturns]
            obtain ⟨keepsKnown', isKept, kept⟩ :=
              ThreadSet.insert_spec keepsKnown thread
            refine ⟨Explores.settle .refl rfl (fun _ => keepsKnown') ?_ ⟨fun _ => isKept, ?_⟩,
              by simp⟩
            · exact kept.imp id fun pushed => ⟨pushed, greedy, canRest⟩
            · intro next step
              cases step with
              | edge inside => exact absurd stopped inside
              | leave _ isReturn =>
                  rw [noReturns] at isReturn
                  cases isReturn
          · rename_i follow outer isReturn
            have step : thread.Next network { thread with state := follow, returns := outer } :=
              .leave stopped isReturn
            obtain ⟨explores, visits⟩ := following _
              { closing with visited := closing.visited.insert thread } step keepsKnown
            refine ⟨(explores.behind munches step).settle rfl id (.inl rfl) ⟨?_, ?_⟩,
              explores.visited thread (by simp)⟩
            · intro canRest
              simp [Network.CanRest, Thread.place, stopped, isReturn] at canRest
            · intro next step'
              cases step' with
              | edge inside => exact absurd stopped inside
              | leave _ isReturn' =>
                  rw [isReturn] at isReturn'
                  cases isReturn'
                  exact visits
        · rename_i inside
          -- Whether the thread is kept or not, its edges are followed next.
          have settles :
              ∀ marked : Closing,
                marked.visited = closing.visited.insert thread →
                  marked.kept.KeepsKnown →
                    (marked.kept.threads = closing.kept.threads ∨
                      marked.kept.threads = closing.kept.threads.push thread ∧
                        thread.passedNonGreedy = false ∧ network.CanRest thread.place) →
                      (network.CanRest thread.place → thread ∈ marked.kept.threads) →
                        let after :=
                          (network.state thread.state).edges.foldl
                            (fun closing edge =>
                              match thread.free? network false edge with
                              | some next => close network false depth next closing
                              | none => closing)
                            marked
                        Explores network thread closing after ∧
                          after.visited.contains thread = true := by
            intro marked marks keepsKnown' keeps isKept
            obtain ⟨explores, visits⟩ :=
              explores_edges munches inside following (fun _ member => member) keepsKnown'
            refine ⟨explores.settle marks (fun _ => keepsKnown') keeps ⟨?_, ?_⟩,
              explores.visited thread (by simp [marks])⟩
            · exact fun canRest => explores.kept (isKept canRest)
            · intro next step
              cases step with
              | edge _ present free => exact visits _ present next free
              | leave stopped _ => exact absurd stopped inside
          simp only [greedy, Bool.and_false, Bool.not_false, Bool.and_true]
          cases epsilonOnly : (network.state thread.state).epsilonOnly with
          | true =>
              refine settles _ rfl keepsKnown (.inl rfl) ?_
              intro canRest
              simp [Network.CanRest, Thread.place, inside, epsilonOnly] at canRest
          | false =>
              have canRest : network.CanRest thread.place := by
                simp [Network.CanRest, Thread.place, inside, epsilonOnly]
              obtain ⟨keepsKnown', isKept, kept⟩ := ThreadSet.insert_spec keepsKnown thread
              exact settles ⟨closing.kept.insert thread, closing.visited.insert thread,
                closing.accepted⟩ rfl keepsKnown'
                (kept.imp id fun pushed => ⟨pushed, greedy, canRest⟩) fun _ => isKept

/-! ## What closing keeps -/

/-- What a set of threads gains: threads of one alternative for all places come to that can rest. -/
structure Gathers
    (network : Network)
    (alternative : Nat)
    (comesTo : Place → Prop)
    (before after : ThreadSet) :
    Prop where
  keepsKnown : after.KeepsKnown
  keeps :
    ∃ added,
      after.threads.toList = before.threads.toList ++ added ∧
        ∀ thread ∈ added,
          thread.alternative = alternative ∧ thread.passedNonGreedy = false ∧
            network.CanRest thread.place ∧ comesTo thread.place
  complete :
    ∀ place,
      comesTo place →
        network.CanRest place →
          ∃ thread ∈ after.threads, thread.place = place ∧ thread.alternative = alternative

omit munches in
/-- The bound on paths is one on walks inside a rule invocation. -/
theorem innerBound_le_pathBound :
    network.innerBound network.states.size ≤ pathBound network :=
  Network.pow_le_powerBound _ _

/-- Closing a thread keeps threads for all places that free steps lead to from it. -/
theorem gathers_close
    (coherent : network.Coherent)
    {thread : Thread}
    {kept : ThreadSet}
    (greedy : thread.passedNonGreedy = false)
    (keepsKnown : kept.KeepsKnown)
    (accepted : Bool) :
    Gathers network thread.alternative
      (fun place => ∃ steps, network.FreeWalk steps thread.place place)
      kept
      (close network false (closeDepth (pathBound network) thread) thread
        ⟨kept, ∅, accepted⟩).kept := by
  have enough :
      ∀ {steps : Nat} {place : Place},
        network.FreeWalk steps thread.place place →
          steps < closeDepth (pathBound network) thread := by
    intro steps place walk
    refine lt_of_lt_of_le
      (walk.lt_bound coherent munches.acyclic (Network.callsAtMost_size coherent)) ?_
    exact Nat.mul_le_mul_right _ innerBound_le_pathBound
  obtain ⟨explores, visits⟩ := explores_close munches ⟨kept, ∅, accepted⟩ greedy enough keepsKnown
  have settled := explores.settles (fun _ => False) (by simp)
  generalize close network false (closeDepth (pathBound network) thread) thread
    ⟨kept, ∅, accepted⟩ = after at explores visits settled
  -- By induction on the walk, from any visited thread of the alternative.
  have complete :
      ∀ {steps : Nat} {first last : Place},
        network.FreeWalk steps first last →
          network.CanRest last →
            ∀ other : Thread,
              after.visited.contains other = true →
                other.place = first →
                  ∃ found ∈ after.kept.threads,
                    found.place = last ∧ found.alternative = other.alternative := by
    intro steps first last walk canRest
    induction walk with
    | stay =>
        rintro other isVisited rfl
        exact ⟨other, ((settled other isVisited).resolve_left id).kept canRest, rfl, rfl⟩
    | step step _ inductionHypothesis =>
        rintro other isVisited rfl
        obtain ⟨next, isNext, isPlace⟩ := Thread.exists_next munches step
        have isVisitedNext := ((settled other isVisited).resolve_left id).followed next isNext
        obtain ⟨found, isKept, isLast, alternative⟩ :=
          inductionHypothesis canRest next isVisitedNext isPlace
        exact ⟨found, isKept, isLast, alternative.trans (isNext.freeStep munches).2.1⟩
  refine ⟨explores.keepsKnown keepsKnown, explores.keeps, ?_⟩
  rintro place ⟨steps, walk⟩ canRest
  exact complete walk canRest thread visits rfl

end Greedy

end Lexer

end GrammarService
