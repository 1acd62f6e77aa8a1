import GrammarService.Proofs.Lexer.Matching

namespace GrammarService

/-!
# Threads in their order

What decides between several ways to match is the order in which threads are kept. While all of
them belong to one rule, which calls no others, they differ in their states only; here is what
following free edges and moving over a character make of such threads, one after the other.
-/

namespace Network

/-- A state of some kind with the given edges. -/
structure HasState
    (network : Network)
    (number : Nat)
    (kind : StateKind)
    (edges : List Edge) :
    Prop where
  kind_eq : (network.state number).kind = kind
  edges_eq : (network.state number).edges = edges
  epsilonOnly_eq :
    (network.state number).epsilonOnly = (!edges.isEmpty && edges.all Edge.isEpsilon)

/-- States with different edges are different. -/
theorem HasState.ne_of_edges
    {network : Network}
    {number other : Nat}
    {kind otherKind : StateKind}
    {edges otherEdges : List Edge}
    (has : network.HasState number kind edges)
    (hasOther : network.HasState other otherKind otherEdges)
    (different : edges ≠ otherEdges) :
    number ≠ other := by
  rintro rfl
  exact different (has.edges_eq.symm.trans hasOther.edges_eq)

/-- States of different kinds are different. -/
theorem HasState.ne_of_kind
    {network : Network}
    {number other : Nat}
    {kind otherKind : StateKind}
    {edges otherEdges : List Edge}
    (has : network.HasState number kind edges)
    (hasOther : network.HasState other otherKind otherEdges)
    (different : kind ≠ otherKind) :
    number ≠ other := by
  rintro rfl
  exact different (has.kind_eq.symm.trans hasOther.kind_eq)

end Network

namespace Lexer

/-! ## Threads in order -/

/-- A set keeps exactly the given threads, in their order. -/
structure ThreadSet.Lists
    (set : ThreadSet)
    (threads : List Thread) :
    Prop where
  toList_eq : set.threads.toList = threads
  known_iff : ∀ thread, set.known.contains thread = true ↔ thread ∈ threads

namespace ThreadSet.Lists

variable {set : ThreadSet} {threads : List Thread}

theorem empty : ThreadSet.empty.Lists [] where
  toList_eq := rfl
  known_iff := by simp [ThreadSet.empty]

/-- A thread that is not kept yet comes last. -/
theorem insert
    (lists : set.Lists threads)
    {thread : Thread}
    (isNew : thread ∉ threads) :
    (set.insert thread).Lists (threads ++ [thread]) := by
  have notKnown : ¬ set.known.contains thread = true := mt (lists.known_iff thread).mp isNew
  rw [ThreadSet.insert, if_neg notKnown]
  refine ⟨by simp [lists.toList_eq], fun other => ?_⟩
  rw [Std.HashSet.contains_insert, Bool.or_eq_true, beq_iff_eq, lists.known_iff, List.mem_append,
    List.mem_singleton, or_comm, eq_comm]

theorem isEmpty_eq (lists : set.Lists threads) : set.isEmpty = threads.isEmpty := by
  rw [ThreadSet.isEmpty, ← lists.toList_eq]
  cases set.threads
  simp

end ThreadSet.Lists

/-- A thread of the only rule, outside all other rules and actions. -/
def atState
    (passed : Bool)
    (state : Nat) :
    Thread where
  state := state
  alternative := 1
  returns := []
  actions := []
  passedNonGreedy := passed

theorem atState_injective (passed : Bool) : Function.Injective (atState passed) := by
  intro state state' same
  exact congrArg Thread.state same

variable {network : Network}

/-! ## Following free edges -/

/-- The given states are all different, and no thread that was visited is at one of them. -/
structure Avoids
    (visited : Std.HashSet Thread)
    (numbers : List Nat) :
    Prop where
  nodup : numbers.Nodup
  not_visited : ∀ thread, visited.contains thread = true → thread.state ∉ numbers

theorem avoids_empty
    {numbers : List Nat}
    (nodup : numbers.Nodup) :
    Avoids ∅ numbers := by
  refine ⟨nodup, ?_⟩
  intro thread isVisited
  simp at isVisited

section Closing

variable
  {thread : Thread}
  {kept : ThreadSet}
  {visited : Std.HashSet Thread}
  {kind : StateKind}
  {numbers : List Nat}

theorem Avoids.not_contains (avoids : Avoids visited (thread.state :: numbers)) :
    ¬ visited.contains thread = true :=
  fun isVisited => avoids.not_visited thread isVisited List.mem_cons_self

/-- A visit of the first of the states leaves the others to be avoided. -/
theorem Avoids.insert
    (thread : Thread)
    (avoids : Avoids visited (thread.state :: numbers)) :
    Avoids (visited.insert thread) numbers := by
  obtain ⟨isNew, nodup⟩ := List.nodup_cons.mp avoids.nodup
  refine ⟨nodup, ?_⟩
  intro other isVisited
  rw [Std.HashSet.contains_insert, Bool.or_eq_true, beq_iff_eq] at isVisited
  rcases isVisited with rfl | wasVisited
  · exact isNew
  · exact fun member => avoids.not_visited other wasVisited (List.mem_cons_of_mem _ member)
/-- Closing a thread that was not visited and whose rule goes on. -/
theorem close_inside
    {edges : List Edge}
    (has : network.HasState thread.state kind edges)
    (inside : kind ≠ .ruleStop)
    (avoids : Avoids visited (thread.state :: numbers))
    (depth : Nat) :
    close network false (depth + 1) thread ⟨kept, visited, false⟩ =
      edges.foldl
        (fun closing edge =>
          match thread.free? network false edge with
          | some next => close network false depth next closing
          | none => closing)
        ⟨if !edges.isEmpty && edges.all Edge.isEpsilon then kept else kept.insert thread,
          visited.insert thread, false⟩ := by
  have goesOn : ¬ (network.state thread.state).kind = .ruleStop := by
    rw [has.kind_eq]
    exact inside
  rw [close, if_neg avoids.not_contains]
  dsimp only
  rw [if_neg goesOn, has.epsilonOnly_eq, has.edges_eq]
  cases !edges.isEmpty && edges.all Edge.isEpsilon <;> rfl

/-- From a state with one free edge closing goes on at its target. -/
theorem close_free
    {target : Nat}
    (has : network.HasState thread.state kind [.epsilon target none])
    (inside : kind ≠ .ruleStop)
    (avoids : Avoids visited (thread.state :: numbers))
    (depth : Nat) :
    close network false (depth + 1) thread ⟨kept, visited, false⟩ =
      close network false depth (thread.moveTo network target)
        ⟨kept, visited.insert thread, false⟩ := by
  rw [close_inside has inside avoids]
  rfl

/-- At a state whose only edge needs a character, closing keeps the thread. -/
theorem close_waiting
    {edge : Edge}
    (has : network.HasState thread.state .basic [edge])
    (needed : edge.isEpsilon = false)
    (avoids : Avoids visited (thread.state :: numbers))
    (depth : Nat) :
    close network false (depth + 1) thread ⟨kept, visited, false⟩ =
      ⟨kept.insert thread, visited.insert thread, false⟩ := by
  have notFree : thread.free? network false edge = none := by
    cases edge <;> first | rfl | cases needed
  rw [close_inside has (by decide) avoids]
  simp [needed, notFree]

/-- In the stop state of its rule a thread has accepted. -/
theorem close_stopped
    (has : network.HasState thread.state .ruleStop [])
    (outermost : thread.returns = [])
    (avoids : Avoids visited (thread.state :: numbers))
    (depth : Nat) :
    close network false (depth + 1) thread ⟨kept, visited, false⟩ =
      ⟨kept.insert thread, visited.insert thread, true⟩ := by
  rw [close, if_neg avoids.not_contains]
  dsimp only
  rw [if_pos has.kind_eq, outermost]

end Closing

/-! ## Moving over a character -/

/-- A thread that was moved along a single edge that consumes a character. -/
theorem moveTo_atState
    {target : Nat}
    {kind : StateKind}
    {edges : List Edge}
    {passed : Bool}
    (has : network.HasState target kind edges)
    (weakens : passed = true ∨ kind.isDecision = false)
    (state : Nat) :
    (atState passed state).moveTo network target = atState passed target := by
  rcases weakens with rfl | notDecision
  · simp [Thread.moveTo, atState]
  · simp [Thread.moveTo, atState, has.kind_eq, notDecision]

theorem closeDepth_of_outermost
    (bound : Nat)
    {thread : Thread}
    (outermost : thread.returns = []) :
    closeDepth bound thread = bound := by
  simp [closeDepth, outermost]

/-- What moving threads does with one of them. -/
def moveNext
    (network : Network)
    (bound : Nat)
    (symbol : Int)
    (moved : Option Nat × ThreadSet)
    (thread : Thread) :
    Option Nat × ThreadSet :=
  let acceptedBefore := moved.1 == some thread.alternative
  if acceptedBefore && thread.passedNonGreedy then
    moved
  else
    let (accepted, kept) :=
      moveAlong network bound symbol thread acceptedBefore moved.2
        (network.state thread.state).edges
    (if accepted then some thread.alternative else moved.1, kept)

theorem moveThreads_eq
    {set : ThreadSet}
    {threads : List Thread}
    (lists : set.Lists threads)
    (bound : Nat)
    (symbol : Int) :
    moveThreads network bound symbol set =
      (threads.foldl (moveNext network bound symbol) (none, ThreadSet.empty)).2 := by
  rw [moveThreads, ← Array.foldl_toList, lists.toList_eq]
  rfl

section Moving

variable
  {bound state : Nat}
  {passed : Bool}
  {kept : ThreadSet}

/-- Once a thread has accepted, those that went through the loop are dropped. -/
theorem foldl_moveNext_of_accepted
    (symbol : Int)
    (states : List Nat) :
    (states.map (atState true)).foldl (moveNext network bound symbol) (some 1, kept) =
      (some 1, kept) := by
  induction states with
  | nil => rfl
  | cons state states inductionHypothesis =>
      rw [List.map_cons, List.foldl_cons]
      exact inductionHypothesis

/-- As long as no thread has accepted, every one is moved along its edges. -/
theorem moveNext_none
    (symbol : Int)
    (thread : Thread) :
    moveNext network bound symbol (none, kept) thread =
      let moved :=
        moveAlong network bound symbol thread false kept (network.state thread.state).edges
      (if moved.1 then some thread.alternative else none, moved.2) :=
  rfl

/-- A thread whose edge does not consume the symbol is dropped. -/
theorem moveNext_of_not_consumes
    {symbol : Int}
    {edge : Edge}
    (has : network.HasState state .basic [edge])
    (notConsumes : edge.consumes symbol 0 maxCharacter = false) :
    moveNext network bound symbol (none, kept) (atState passed state) = (none, kept) := by
  have edges_eq : (network.state (atState passed state).state).edges = [edge] := has.edges_eq
  have isSame :
      moveAlong network bound symbol (atState passed state) false kept [edge] = (false, kept) :=
    moveAlong_of_none (by simpa using notConsumes)
  rw [moveNext_none, edges_eq, isSame]
  rfl

/-- A thread whose edge consumes a character is moved along it and closed. -/
theorem moveNext_of_consumes
    {character : Char}
    {edge : Edge}
    (has : network.HasState state .basic [edge])
    (consumes : edge.consumes character.toNat 0 maxCharacter = true) :
    moveNext network bound character.toNat (none, kept) (atState passed state) =
      let closing :=
        close network false bound ((atState passed state).moveTo network edge.target)
          ⟨kept, ∅, false⟩
      (if closing.accepted then some 1 else none, closing.kept) := by
  have edges_eq : (network.state (atState passed state).state).edges = [edge] := has.edges_eq
  have notAtEnd : ((character.toNat : Int) == endOfInput) = false := by
    simp [endOfInput]
  rw [moveNext_none, edges_eq, moveAlong, if_pos consumes, notAtEnd]
  dsimp only
  rw [closeDepth_of_outermost bound rfl]
  split <;> rfl

/-- A wildcard consumes every character. -/
theorem wildcard_consumes
    (target : Nat)
    (character : Char) :
    (Edge.wildcard target).consumes character.toNat 0 maxCharacter = true := by
  have isValid : character.toNat.isValidChar := character.valid
  have inRange : (0 : Int) ≤ character.toNat ∧ (character.toNat : Int) ≤ maxCharacter := by
    rw [maxCharacter]
    rcases isValid with isLow | ⟨_, isHigh⟩ <;> omega
  exact decide_eq_true inRange

end Moving

/-- A thread that waits for a character. -/
def Waits
    (network : Network)
    (thread : Thread) :
    Prop :=
  ∃ edge,
    network.HasState thread.state .basic [edge] ∧
      edge.consumes endOfInput 0 maxCharacter = false

section Waiting

variable
  {set : ThreadSet}
  {threads : List Thread}

/-- As long as all threads wait, no token is finished. -/
theorem acceptedIn?_of_waits
    (lists : set.Lists threads)
    (waits : ∀ thread ∈ threads, Waits network thread)
    (length : Nat) :
    acceptedIn? network set length = none := by
  rw [acceptedIn?, ← Array.find?_toList, lists.toList_eq, Option.map_eq_none_iff,
    List.find?_eq_none]
  intro thread member
  obtain ⟨edge, has, _⟩ := waits thread member
  simp [has.kind_eq]

/-- At the end of the input no thread that waits can move. -/
theorem moveThreads_of_waits
    (lists : set.Lists threads)
    (waits : ∀ thread ∈ threads, Waits network thread)
    (bound : Nat) :
    moveThreads network bound endOfInput set = ThreadSet.empty := by
  refine moveThreads_of_none ?_
  rw [lists.toList_eq]
  intro thread member edge present
  obtain ⟨only, has, notAtEnd⟩ := waits thread member
  rw [has.edges_eq, List.mem_singleton] at present
  rwa [present]

/-- Where threads are left, matching goes on with them. -/
theorem longestMatch_cons
    {bound length : Nat}
    {accepted : Option Accepted}
    {character : Char}
    {unread : List Char}
    (moved : (moveThreads network bound character.toNat set).Lists threads)
    (some_thread : threads ≠ []) :
    longestMatch network bound length set accepted (character :: unread) =
      longestMatch network bound (length + 1) (moveThreads network bound character.toNat set)
        ((acceptedIn? network (moveThreads network bound character.toNat set) (length + 1)).or
          accepted)
        unread := by
  have notEmpty : ¬ (moveThreads network bound character.toNat set).isEmpty = true := by
    simpa [moved.isEmpty_eq] using some_thread
  rw [longestMatch]
  exact if_neg notEmpty

theorem waits_atom
    {number target : Nat}
    {character : Char}
    {passed : Bool}
    (has : network.HasState number .basic [.atom target character.toNat]) :
    Waits network (atState passed number) := by
  refine ⟨_, has, beq_eq_false_iff_ne.mpr ?_⟩
  rw [endOfInput]
  omega

end Waiting

end Lexer

end GrammarService
