import Std.Data.HashMap

namespace GrammarService

/-!
# Return stacks

While prediction follows rule calls it has to know where each rule returns to. Stacks that differ
only in where they return are merged, so a stack is a graph: each node lists the states to return
to, each with the stack below it.

Nodes are kept once in a `StackStore` and referred to by number, so that equal stacks have equal
numbers; the stack below an entry always has a smaller number than the node itself. Number zero is
the empty stack. Merging either treats the empty stack as any stack at all, or as one more way to
return.
-/

/-- The number of a stack in its store. -/
abbrev StackId :=
  Nat

namespace StackId

/-- The empty stack. -/
def empty : StackId :=
  0

end StackId

/-- A state to return to with the stack below it; no state marks the bottom of a stack. -/
structure StackEntry where
  returnState : Option Nat
  below : StackId
  deriving Repr, DecidableEq, Hashable, Inhabited

namespace StackEntry

/-- The entry for the bottom of a stack. -/
def bottom : StackEntry where
  returnState := none
  below := StackId.empty

/-- Whether an entry stands before another: by return state, the bottom last. -/
def isBefore
    (first second : StackEntry) :
    Bool :=
  match first.returnState, second.returnState with
  | some state, some other => state < other
  | some _, none => true
  | none, _ => false

end StackEntry

/-- All stacks made so far, and the merges computed between them. -/
structure StackStore where
  /-- The entries of each node in ascending order; those of the empty stack are none. -/
  nodes : Array (List StackEntry)
  interned : Std.HashMap (List StackEntry) StackId
  merged : Std.HashMap (StackId × StackId × Bool) StackId

namespace StackStore

/-- The store that holds the empty stack only. -/
def initial : StackStore where
  nodes := #[[]]
  interned := ∅
  merged := ∅

/-- The entries of a stack, of which the empty stack has none. -/
def entries
    (store : StackStore)
    (stack : StackId) :
    List StackEntry :=
  store.nodes.getD stack []

/-- Whether one of the ways through a stack ends at its bottom. -/
def reachesBottom
    (store : StackStore)
    (stack : StackId) :
    Bool :=
  stack == StackId.empty ||
    match (store.entries stack).getLast? with
    | some entry => entry.returnState.isNone
    | none => false

/-- The stack with the given ascending entries. -/
def intern (entries : List StackEntry) : StateM StackStore StackId := do
  if entries.isEmpty || entries = [StackEntry.bottom] then
    return StackId.empty
  let store ← get
  match store.interned[entries]? with
  | some stack => return stack
  | none =>
      let stack := store.nodes.size
      modify fun store =>
        { store with
          nodes := store.nodes.push entries
          interned := store.interned.insert entries stack }
      return stack

/-- The stack that returns to a state and then along the stack below it. -/
def push
    (below : StackId)
    (returnState : Nat) :
    StateM StackStore StackId :=
  intern [⟨some returnState, below⟩]

/-- The stack that returns to the given states, the last of them first. -/
def ofReturnStates (returnStates : List Nat) : StateM StackStore StackId :=
  returnStates.foldlM push StackId.empty

/-- The entries of a stack, the empty stack being spelled as its bottom. -/
def spelledEntries
    (store : StackStore)
    (stack : StackId) :
    List StackEntry :=
  if stack = StackId.empty then
    [StackEntry.bottom]
  else
    store.entries stack

/-- Whether a stack has a single way to start returning. -/
def isSingle
    (store : StackStore)
    (stack : StackId) :
    Bool :=
  stack == StackId.empty || (store.entries stack).length == 1

/-- Merge ascending entries into ascending entries; `mergeBelow` merges what is below equal
return states. -/
def mergeEntries
    (mergeBelow : StackId → StackId → StateM StackStore StackId) :
    List StackEntry → List StackEntry → StateM StackStore (List StackEntry)
  | [], second => return second
  | first, [] => return first
  | entry :: rest, entry' :: rest' => do
      if entry.returnState = entry'.returnState then
        let below ←
          if entry.below = entry'.below then
            pure entry.below
          else
            mergeBelow entry.below entry'.below
        return ⟨entry.returnState, below⟩ :: (← mergeEntries mergeBelow rest rest')
      else if entry.isBefore entry' then
        return entry :: (← mergeEntries mergeBelow rest (entry' :: rest'))
      else
        return entry' :: (← mergeEntries mergeBelow (entry :: rest) rest')
termination_by first second => first.length + second.length

/-- Merge two stacks that each have a single way to start returning. -/
def mergeSingles
    (mergeBelow : StackId → StackId → StateM StackStore StackId)
    (emptyIsAny : Bool)
    (first second : StackId) :
    StateM StackStore StackId := do
  let store ← get
  if first = StackId.empty || second = StackId.empty then
    if emptyIsAny then
      return StackId.empty
    else
      let other := if first = StackId.empty then second else first
      intern (store.spelledEntries other ++ [StackEntry.bottom])
  else
    match store.entries first, store.entries second with
    | [entry], [entry'] =>
        if entry.returnState = entry'.returnState then
          let below ← mergeBelow entry.below entry'.below
          intern [⟨entry.returnState, below⟩]
        else if entry.isBefore entry' then
          intern [entry, entry']
        else
          intern [entry', entry]
    | _, _ => return first

/-- Merge two different stacks, neither of which was merged with the other before. -/
def mergeAnew
    (mergeBelow : StackId → StackId → StateM StackStore StackId)
    (emptyIsAny : Bool)
    (first second : StackId) :
    StateM StackStore StackId := do
  let store ← get
  if store.isSingle first && store.isSingle second then
    mergeSingles mergeBelow emptyIsAny first second
  else if emptyIsAny && (first = StackId.empty || second = StackId.empty) then
    return StackId.empty
  else
    intern
      (← mergeEntries mergeBelow (store.spelledEntries first) (store.spelledEntries second))

/-- Merge two stacks of which one has a number below `depth`. -/
def mergeWithin
    (emptyIsAny : Bool) :
    (depth : Nat) → StackId → StackId → StateM StackStore StackId
  | 0, first, _ => return first
  | depth + 1, first, second => do
      if first = second then
        return first
      let key := (min first second, max first second, emptyIsAny)
      match (← get).merged[key]? with
      | some stack => return stack
      | none =>
          let stack ← mergeAnew (mergeWithin emptyIsAny depth) emptyIsAny first second
          modify fun store => { store with merged := store.merged.insert key stack }
          return stack

/--
Merge two stacks into one that returns along the ways of both.

Where `emptyIsAny`, the empty stack stands for every stack and takes in whatever it is merged
with; otherwise it stays as one more way. Stacks below have smaller numbers, so the smaller of the
two numbers bounds the depth.
-/
def merge
    (first second : StackId)
    (emptyIsAny : Bool) :
    StateM StackStore StackId :=
  mergeWithin emptyIsAny (min first second + 1) first second

end StackStore

end GrammarService
