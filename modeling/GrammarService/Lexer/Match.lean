import GrammarService.Lexer.Thread

namespace GrammarService

/-!
# Matching one token

From a mode's start state, the longest text that a rule matches is found by moving all threads
over one character after the other, until none is left. Among matches of the same length the
thread kept first wins, and so the rule defined first.
-/

namespace Lexer

/-- A token rule that matched. -/
structure Accepted where
  /-- How many characters matched. -/
  length : Nat
  rule : Option Nat
  actions : List Nat
  deriving Repr, DecidableEq

/-- What matching found. -/
inductive Match
  | accepted (token : Accepted)
  /-- There is no more input, or no mode to match it in. -/
  | ended
  /-- No rule matches, and after `length` characters none could any more. -/
  | failed (length : Nat)
  deriving Repr, DecidableEq

/-- The first thread that has finished its token. -/
def acceptedIn?
    (network : Network)
    (set : ThreadSet)
    (length : Nat) :
    Option Accepted :=
  (set.threads.find? fun thread => (network.state thread.state).kind = .ruleStop).map
    fun thread => ⟨length, (network.state thread.state).rule, thread.actions⟩

/-- The threads a mode starts with: one for each edge of its start state, closed. -/
def startThreads
    (network : Network)
    (bound modeStart : Nat) :
    ThreadSet :=
  (network.state modeStart).edges.zipIdx.foldl
    (fun kept (edge, place) =>
      let thread : Thread := ⟨edge.target, place + 1, [], [], false⟩
      (close network false (closeDepth bound thread) thread ⟨kept, ∅, false⟩).kept)
    ThreadSet.empty

/--
Move a thread over a symbol along each of its edges in turn, until one of them leads to an
accepted token; say whether one did.
-/
def moveAlong
    (network : Network)
    (bound : Nat)
    (symbol : Int)
    (thread : Thread)
    (acceptedBefore : Bool)
    (kept : ThreadSet) :
    List Edge → Bool × ThreadSet
  | [] => (false, kept)
  | edge :: rest =>
      if edge.consumes symbol 0 maxCharacter then
        let next := thread.moveTo network edge.target
        let closing :=
          close network (symbol == endOfInput) (closeDepth bound next) next
            ⟨kept, ∅, acceptedBefore⟩
        if closing.accepted then
          (true, closing.kept)
        else
          moveAlong network bound symbol thread acceptedBefore closing.kept rest
      else
        moveAlong network bound symbol thread acceptedBefore kept rest

/--
Move threads over a symbol, first to last.

Once an alternative has accepted, its later threads are weaker: those that passed a decision that
prefers to end early are dropped.
-/
def moveThreads
    (network : Network)
    (bound : Nat)
    (symbol : Int)
    (set : ThreadSet) :
    ThreadSet :=
  (set.threads.foldl
    (fun (moved : Option Nat × ThreadSet) thread =>
      let acceptedBefore := moved.1 == some thread.alternative
      if acceptedBefore && thread.passedNonGreedy then
        moved
      else
        let (accepted, kept) :=
          moveAlong network bound symbol thread acceptedBefore moved.2
            (network.state thread.state).edges
        (if accepted then some thread.alternative else moved.1, kept))
    (none, ThreadSet.empty)).2

/--
Move threads over the unread characters for as long as one is left, and remember the last token
accepted on the way. The result also says how many characters were passed.
-/
def longestMatch
    (network : Network)
    (bound : Nat)
    (length : Nat)
    (set : ThreadSet)
    (accepted : Option Accepted) :
    (unread : List Char) → Option Accepted × Nat
  | [] =>
      let moved := moveThreads network bound endOfInput set
      ((acceptedIn? network moved length).or accepted, length)
  | character :: unread =>
      let moved := moveThreads network bound character.toNat set
      if moved.isEmpty then
        (accepted, length)
      else
        longestMatch network bound (length + 1) moved
          ((acceptedIn? network moved (length + 1)).or accepted) unread

/-- Match one token at the start of the unread characters. -/
def matchToken
    (network : Network)
    (mode : Nat)
    (unread : List Char) :
    Match :=
  match network.modeStarts[mode]? with
  | none => .ended
  | some modeStart =>
      let bound := pathBound network
      let set := startThreads network bound modeStart
      match longestMatch network bound 0 set (acceptedIn? network set 0) unread with
      | (some accepted, _) => .accepted accepted
      | (none, length) => if unread.isEmpty then .ended else .failed length

end Lexer

end GrammarService
